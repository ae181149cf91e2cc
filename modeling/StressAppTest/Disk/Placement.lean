import Mathlib
import StressAppTest.Disk.TableInvariant

/-!
# Where `GetUnusedBlock` puts a block (`disk_blocks.cc`)

The runs of the table in which the sectors are those that `GetUnusedBlock` computes from random
numbers, with the segment it was called for. It looks up the first sector of a block only. This is
enough: the blocks of one segment start on one grid, of the size of a block, and those of different
segments cannot meet because each lies inside its segment (`blocks_disjoint`).

The sectors are exact integers; an overflow of the 64-bit computation is undefined in the source.
-/

namespace StressAppTest.Disk

/-- The parameters that `SetParameters` stores. -/
structure Parameters where
  sectorSize : Int
  writeBlockSize : Int
  deviceSectors : Int
  segmentSize : Int

namespace Parameters

def numSectors (p : Parameters) : Int := p.writeBlockSize.tdiv p.sectorSize

/-- The sector of a pass of the loop. `Random64() & 0x7FFFFFFFFFFFFFFF` is the remainder modulo
`2 ^ 63`. -/
def sector (p : Parameters) (segment random : Int) : Int :=
  if p.segmentSize = -1 then
    (random % 2 ^ 63).tmod (p.deviceSectors.tdiv p.numSectors) * p.numSectors
  else (random % 2 ^ 63).tmod (p.segmentSize.tdiv p.numSectors) * p.numSectors + segment * p.segmentSize

/-- The two range checks of a pass. -/
def fits (p : Parameters) (segment sector : Int) : Bool :=
  (p.segmentSize == -1 || decide (sector + p.numSectors ≤ (segment + 1) * p.segmentSize)) &&
    decide (sector + p.numSectors ≤ p.deviceSectors)

/-- The block size is a positive multiple of the sector size, and the device and a segment have room
for a block. -/
structure Valid (p : Parameters) : Prop where
  sectorSize_pos : 0 < p.sectorSize
  writeBlockSize_pos : 0 < p.writeBlockSize
  dvd : p.sectorSize ∣ p.writeBlockSize
  device : p.numSectors ≤ p.deviceSectors
  segment : p.segmentSize = -1 ∨ p.numSectors ≤ p.segmentSize

/-- Where a block may start that was requested for `segment`. -/
structure Placed (p : Parameters) (segment sector : Int) : Prop where
  nonneg : 0 ≤ sector
  device : sector + p.numSectors ≤ p.deviceSectors
  inSegment : p.segmentSize ≠ -1 →
    segment * p.segmentSize ≤ sector ∧ sector + p.numSectors ≤ (segment + 1) * p.segmentSize
  grid : ∃ k, sector = k * p.numSectors + if p.segmentSize = -1 then 0 else segment * p.segmentSize

variable {p : Parameters}

theorem Valid.numSectors_pos (h : p.Valid) : 0 < p.numSectors := by
  obtain ⟨k, hk⟩ := h.dvd
  have hpos := h.writeBlockSize_pos
  have hsector := h.sectorSize_pos
  rw [hk] at hpos
  rw [numSectors, hk, Int.mul_tdiv_cancel_left _ (by omega)]
  exact (pos_iff_pos_of_mul_pos hpos).mp hsector

/-- A pass whose checks succeed has found a place. -/
theorem Valid.placed_sector (h : p.Valid) {segment : Int} (hsegment : 0 ≤ segment) (random : Int)
    (hfits : p.fits segment (p.sector segment random) = true) :
    p.Placed segment (p.sector segment random) := by
  have hnum := h.numSectors_pos
  have hrandom : 0 ≤ random % 2 ^ 63 := Int.emod_nonneg random (by norm_num)
  rw [fits, Bool.and_eq_true, Bool.or_eq_true, decide_eq_true_eq, decide_eq_true_eq,
    beq_iff_eq] at hfits
  obtain ⟨hseg, hdevice⟩ := hfits
  by_cases hwhole : p.segmentSize = -1
  · have hsector : p.sector segment random =
        (random % 2 ^ 63).tmod (p.deviceSectors.tdiv p.numSectors) * p.numSectors := if_pos hwhole
    refine ⟨?_, hdevice, fun hne => absurd hwhole hne, ?_⟩
    · rw [hsector]
      exact Int.mul_nonneg (Int.tmod_nonneg _ hrandom) hnum.le
    · exact ⟨_, by rw [if_pos hwhole, Int.add_zero, hsector]⟩
  · have hsector : p.sector segment random =
        (random % 2 ^ 63).tmod (p.segmentSize.tdiv p.numSectors) * p.numSectors +
          segment * p.segmentSize := if_neg hwhole
    have hsize : 0 < p.segmentSize := by
      rcases h.segment with heq | hle
      · exact absurd heq hwhole
      · omega
    have hoffset : 0 ≤ (random % 2 ^ 63).tmod (p.segmentSize.tdiv p.numSectors) * p.numSectors :=
      Int.mul_nonneg (Int.tmod_nonneg _ hrandom) hnum.le
    have hbase : 0 ≤ segment * p.segmentSize := Int.mul_nonneg hsegment hsize.le
    refine ⟨?_, hdevice, fun _ => ⟨?_, ?_⟩, ?_⟩
    · rw [hsector]
      exact Int.add_nonneg hoffset hbase
    · rw [hsector]
      exact Int.le_add_of_nonneg_left hoffset
    · exact hseg.resolve_left hwhole
    · exact ⟨_, by rw [if_neg hwhole, hsector]⟩

/-- Two points of one grid are a block apart. -/
theorem grid_apart {num k l base : Int} (hnum : 0 < num) (hkl : k < l) :
    k * num + base + num ≤ l * num + base := by
  have hmul : (k + 1) * num ≤ l * num := Int.mul_le_mul_of_nonneg_right (by omega) hnum.le
  rw [Int.add_mul, Int.one_mul] at hmul
  omega

/-- Two segments do not overlap. -/
theorem segment_apart {size i j : Int} (hsize : 0 < size) (hij : i < j) : (i + 1) * size ≤ j * size :=
  Int.mul_le_mul_of_nonneg_right (by omega) hsize.le

/-- Blocks at different places do not overlap. -/
theorem Valid.disjoint (h : p.Valid) {segment segment' a b : Int} (ha : p.Placed segment a)
    (hb : p.Placed segment' b) (hab : a ≠ b) : a + p.numSectors ≤ b ∨ b + p.numSectors ≤ a := by
  have hnum := h.numSectors_pos
  by_cases hsame : p.segmentSize = -1 ∨ segment = segment'
  · have hbase : (if p.segmentSize = -1 then 0 else segment * p.segmentSize) =
        if p.segmentSize = -1 then 0 else segment' * p.segmentSize := by
      rcases hsame with hwhole | hsegment
      · rw [if_pos hwhole, if_pos hwhole]
      · rw [hsegment]
    obtain ⟨k, hk⟩ := ha.grid
    obtain ⟨l, hl⟩ := hb.grid
    rw [hk, hbase, hl]
    rcases Int.lt_trichotomy k l with hlt | heq | hgt
    · exact Or.inl (grid_apart hnum hlt)
    · rw [hk, hbase, hl, heq] at hab
      exact absurd rfl hab
    · exact Or.inr (grid_apart hnum hgt)
  · obtain ⟨hsize, hsegment⟩ := not_or.mp hsame
    have hpos : 0 < p.segmentSize := by
      have hle := h.segment.resolve_left hsize
      omega
    obtain ⟨hastart, haend⟩ := ha.inSegment hsize
    obtain ⟨hbstart, hbend⟩ := hb.inSegment hsize
    rcases Int.lt_or_gt_of_ne hsegment with hlt | hgt
    · exact Or.inl (haend.trans ((segment_apart hpos hlt).trans hbstart))
    · exact Or.inr (hbend.trans ((segment_apart hpos hgt).trans hastart))

end Parameters

/-! ## Runs -/

/-- The table, the segment of the call of `GetUnusedBlock` in progress, and for each address the
segment that its block was requested for. -/
structure Placement (τ : Type) where
  table : Table τ
  segment : Int
  requested : Int → Int

def Placement.initial (τ : Type) : Placement τ := ⟨Disk.initial τ, 0, fun _ => 0⟩

/-- The operations that have to do with the place of a block. -/
def Event.places {τ : Type} : Event τ → Bool
  | .alloc | .check _ _ | .insert => true
  | _ => false

variable {τ : Type} [DecidableEq τ]

/-- A step of the table in which `GetUnusedBlock(segment)` tries the sectors of random numbers. -/
inductive Placement.Step (p : Parameters) (s : Placement τ) : Placement τ → Prop
  | request (segment : Int) (hsegment : 0 ≤ segment) (he : Enabled s.table .alloc) :
      Step p s { s with table := alloc s.table, segment := segment }
  | tryRandom (random : Int) {t : Table τ}
      (he : Enabled s.table (.check (p.sector s.segment random)
        (p.fits s.segment (p.sector s.segment random))))
      (ht : Disk.next s.table (.check (p.sector s.segment random)
        (p.fits s.segment (p.sector s.segment random))) = some t) :
      Step p s { s with table := t }
  | insert {block pos : Nat} {sector : Int} {t : Table τ}
      (hw : s.table.writer = .inserting block sector pos)
      (ht : Disk.insert s.table block sector pos = some t) :
      Step p s { s with
        table := t
        requested := Function.update s.requested sector s.segment }
  | other (e : Event τ) {t : Table τ} (hplaces : e.places = false) (he : Enabled s.table e)
      (ht : Disk.next s.table e = some t) : Step p s { s with table := t }

/-- The states of all runs. -/
def Placement.Reachable (p : Parameters) (s : Placement τ) : Prop :=
  Relation.ReflTransGen (Placement.Step p) (Placement.initial τ) s

theorem Placement.Step.table {p : Parameters} {s s' : Placement τ} (h : Placement.Step p s s') :
    Disk.Step s.table s'.table := by
  cases h with
  | request segment hsegment he => exact ⟨.alloc, he, rfl⟩
  | tryRandom random he ht => exact ⟨_, he, ht⟩
  | insert hw ht => exact ⟨.insert, ⟨_, _, _, hw⟩, by simp only [Disk.next, hw, ht]⟩
  | other e _ he ht => exact ⟨e, he, ht⟩

theorem Placement.Reachable.table {p : Parameters} {s : Placement τ}
    (h : Placement.Reachable p s) : Disk.Reachable s.table := by
  induction h with
  | refl => exact .refl
  | tail _ hstep ih => exact ih.tail hstep.table

/-! ## The invariant -/

/-- The sector that `GetUnusedBlock` has found. -/
def Writer.sector : Writer → Option Int
  | .found _ sector | .inserting _ sector _ => some sector
  | _ => none

/-- Every block is where its request allows it, and so is the one to be inserted. -/
structure Placement.Inv (p : Parameters) (s : Placement τ) : Prop where
  segment : 0 ≤ s.segment
  placed : ∀ a, (s.table.addrToBlock a).isSome → p.Placed (s.requested a) a
  found : ∀ sector, s.table.writer.sector = some sector → p.Placed s.segment sector

/-- No address is added, and no sector is found. -/
def Frame (s t : Table τ) : Prop :=
  (∀ a, (t.addrToBlock a).isSome → (s.addrToBlock a).isSome) ∧
    ∀ sector, t.writer.sector = some sector → s.writer.sector = some sector

omit [DecidableEq τ] in
theorem frame_of_eq {s t : Table τ} (haddr : t.addrToBlock = s.addrToBlock)
    (hwriter : t.writer = s.writer) : Frame s t :=
  ⟨fun a ha => by rwa [haddr] at ha, fun sector hsector => by rwa [hwriter] at hsector⟩

omit [DecidableEq τ] in
theorem frame_beginRemove {s t : Table τ} {block : Nat} (h : beginRemove s block = some t) :
    Frame s t := by
  simp only [beginRemove, Option.bind_eq_bind, Option.bind_eq_some_iff] at h
  obtain ⟨data, -, h⟩ := h
  cases hsd : s.addrToBlock data.address with
  | none =>
      rw [hsd] at h
      cases h
      exact frame_of_eq rfl rfl
  | some sd =>
      simp only [hsd, Option.bind_eq_some_iff] at h
      obtain ⟨lastAddress, -, h⟩ := h
      split at h
      · cases h
      · obtain ⟨lastData, -, h⟩ := Option.bind_eq_some_iff.mp h
        cases h
        exact ⟨fun a ha => ha, fun _ hs => by cases hs⟩

omit [DecidableEq τ] in
theorem frame_remove {s t : Table τ} {block currPos : Nat} {address lastAddress : Int}
    (h : remove s block address currPos lastAddress = some t) : Frame s t := by
  simp only [remove, Option.bind_eq_bind, Option.bind_eq_some_iff] at h
  obtain ⟨last, -, lastData, hlast, data, -, h⟩ := h
  cases h
  refine ⟨fun a ha => ?_, fun _ hs => by cases hs⟩
  by_cases haddr : a = address
  · simp [haddr] at ha
  · simp only [Function.update_of_ne haddr] at ha
    by_cases hlastaddr : a = lastAddress
    · rw [hlastaddr, hlast]
      rfl
    · simpa only [Function.update_of_ne hlastaddr] using ha

theorem frame_getRandomBlock {s t : Table τ} {r : τ} {random : Nat}
    (h : getRandomBlock s r random = some t) : Frame s t := by
  rw [getRandomBlock] at h
  split at h
  · cases h
    exact frame_of_eq rfl rfl
  · simp only [Option.bind_eq_bind, Option.bind_eq_some_iff] at h
    obtain ⟨address, -, sd, -, data, -, h⟩ := h
    split at h <;> (cases h; exact frame_of_eq rfl rfl)

theorem frame_releaseBlock {s t : Table τ} {r : τ} {block : Nat}
    (h : releaseBlock s r block = some t) : Frame s t := by
  simp only [releaseBlock, Option.bind_eq_bind, Option.bind_eq_some_iff] at h
  obtain ⟨data, -, h⟩ := h
  cases h
  exact frame_of_eq rfl rfl

theorem frame_next {s t : Table τ} {e : Event τ} (hplaces : e.places = false)
    (h : next s e = some t) : Frame s t := by
  cases e with
  | alloc => cases hplaces
  | check sector fits => cases hplaces
  | insert => cases hplaces
  | giveUp =>
      rw [next] at h
      split at h
      · next block tries hw =>
        simp only [giveUp, Option.bind_eq_bind, Option.bind_eq_some_iff] at h
        obtain ⟨data, -, h⟩ := h
        cases h
        exact ⟨fun a ha => ha, fun _ hs => by cases hs⟩
      · cases h
  | prepare =>
      rw [next] at h
      split at h
      · next block sector hw =>
        cases h
        refine ⟨fun a ha => ha, fun sector' hsector => ?_⟩
        rw [hw]
        exact hsector
      · cases h
  | setInitialized block =>
      simp only [next, setInitialized, Option.bind_eq_bind, Option.bind_eq_some_iff] at h
      obtain ⟨data, -, h⟩ := h
      cases h
      exact frame_of_eq rfl rfl
  | useOwn block =>
      rw [next, Option.map_eq_some_iff] at h
      obtain ⟨data, -, rfl⟩ := h
      exact frame_of_eq rfl rfl
  | beginRemove block => exact frame_beginRemove h
  | remove =>
      rw [next] at h
      split at h
      · exact frame_remove h
      · cases h
  | get r random => exact frame_getRandomBlock h
  | useHeld r =>
      simp only [next, Option.bind_eq_some_iff, Option.map_eq_some_iff] at h
      obtain ⟨block, -, data, -, rfl⟩ := h
      exact frame_of_eq rfl rfl
  | release r =>
      rw [next, Option.bind_eq_some_iff] at h
      obtain ⟨block, -, h⟩ := h
      exact frame_releaseBlock h

namespace Placement

variable {p : Parameters} {s s' : Placement τ}

omit [DecidableEq τ] in
theorem inv_initial (p : Parameters) : Inv p (initial τ) where
  segment := Int.le_refl 0
  placed _ ha := by cases ha
  found _ hs := by cases hs

omit [DecidableEq τ] in
theorem Inv.frame (h : Inv p s) {t : Table τ} (hframe : Frame s.table t) :
    Inv p { s with table := t } :=
  ⟨h.segment, fun a ha => h.placed a (hframe.1 a ha), fun sector hs => h.found sector (hframe.2 sector hs)⟩

theorem Inv.step (hp : p.Valid) (h : Inv p s) (hstep : Step p s s') : Inv p s' := by
  cases hstep with
  | request segment hsegment he => exact ⟨hsegment, h.placed, fun _ hs => by cases hs⟩
  | tryRandom random he ht =>
      obtain ⟨block, tries, hw, -⟩ := he
      simp only [next, hw, Option.some.injEq] at ht
      subst ht
      rw [check]
      split
      · next hfree =>
        rw [Bool.and_eq_true] at hfree
        refine ⟨h.segment, h.placed, fun sector hsector => ?_⟩
        obtain rfl : p.sector s.segment random = sector := Option.some.inj hsector
        exact hp.placed_sector h.segment random hfree.1
      · exact ⟨h.segment, h.placed, fun _ hs => by cases hs⟩
  | @insert block pos sector t hw ht =>
      simp only [insert, Option.bind_eq_bind, Option.bind_eq_some_iff] at ht
      obtain ⟨data, -, ht⟩ := ht
      cases ht
      refine ⟨h.segment, fun a ha => ?_, fun _ hs => by cases hs⟩
      by_cases heq : a = sector
      · subst heq
        simp only [Function.update_self]
        exact h.found a (by rw [hw]; rfl)
      · simp only [Function.update_of_ne heq] at ha ⊢
        exact h.placed a ha
  | other e hplaces he ht => exact h.frame (frame_next hplaces ht)

theorem inv_of_reachable (hp : p.Valid) (h : Reachable p s) : Inv p s := by
  induction h with
  | refl => exact inv_initial p
  | tail _ hstep ih => exact ih.step hp hstep

end Placement

/-- In every run: a block of the table starts at its address, it lies on the device and in the
segment it was requested for, and no two blocks overlap. -/
theorem blocks_disjoint {τ : Type} [Fintype τ] [DecidableEq τ] {p : Parameters} (hp : p.Valid)
    {s : Placement τ} (h : Placement.Reachable p s) :
    (∀ a sd, s.table.addrToBlock a = some sd →
      (∃ data, s.table.heap sd.block = some data ∧ data.address = a) ∧
      0 ≤ a ∧ a + p.numSectors ≤ p.deviceSectors ∧
      (p.segmentSize ≠ -1 → s.requested a * p.segmentSize ≤ a ∧
        a + p.numSectors ≤ (s.requested a + 1) * p.segmentSize)) ∧
    ∀ a b, (s.table.addrToBlock a).isSome → (s.table.addrToBlock b).isSome → a ≠ b →
      Disjoint (Set.Ico a (a + p.numSectors)) (Set.Ico b (b + p.numSectors)) := by
  have hinv := Placement.inv_of_reachable hp h
  constructor
  · intro a sd hsd
    have hplaced := hinv.placed a (by rw [hsd]; rfl)
    exact ⟨((Disk.inv_of_reachable h.table).block a sd hsd).2, hplaced.nonneg, hplaced.device,
      hplaced.inSegment⟩
  · intro a b ha hb hab
    rw [Set.Ico_disjoint_Ico]
    rcases hp.disjoint (hinv.placed a ha) (hinv.placed b hb) hab with hle | hle
    · exact (min_le_left _ _).trans (hle.trans (le_max_right _ _))
    · exact (min_le_right _ _).trans (hle.trans (le_max_left _ _))

/-- Blocks of two sectors in segments of five: the grid of the second segment starts at an odd
sector. -/
theorem blocks_disjoint_odd : ∃ s : Placement (Fin 1), Placement.Reachable ⟨512, 1024, 12, 5⟩ s ∧
    (s.table.addrToBlock 2).isSome ∧ (s.table.addrToBlock 7).isSome ∧
    Disjoint (Set.Ico (2 : Int) (2 + 2)) (Set.Ico (7 : Int) (7 + 2)) := by
  let p : Parameters := ⟨512, 1024, 12, 5⟩
  have hp : p.Valid := ⟨by decide, by decide, by decide, by decide, Or.inr (by decide)⟩
  have get {s : Placement (Fin 1)} (h : Placement.Reachable p s) (segment : Int)
      (hsegment : 0 ≤ segment) (hidle : s.table.writer = .idle) :
      Placement.Reachable p { s with table := alloc s.table, segment := segment } :=
    h.tail (.request segment hsegment hidle)
  have hfirst : Placement.Reachable p _ := (((get .refl 0 (by decide) rfl).tail
    (.tryRandom 1 ⟨0, 0, rfl, by decide⟩ rfl)).tail (.other .prepare rfl ⟨0, 2, rfl⟩ rfl)).tail
    (.insert rfl rfl)
  have hsecond : Placement.Reachable p _ := (((get hfirst 1 (by decide) rfl).tail
    (.tryRandom 1 ⟨1, 0, rfl, by decide⟩ rfl)).tail (.other .prepare rfl ⟨1, 7, rfl⟩ rfl)).tail
    (.insert rfl rfl)
  exact ⟨_, hsecond, rfl, rfl, (blocks_disjoint hp hsecond).2 2 7 rfl rfl (by decide)⟩

end StressAppTest.Disk
