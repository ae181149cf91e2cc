import StressAppTest.Memory.CheckRegion
import StressAppTest.Memory.ExactSums

/-!
# What the block checksum detects (`CrcCheckPage` of `worker.cc`)

A block of 4096 bytes is 1024 units in two streams of 512. The sums of such a stream do not
wrap, so equal checksums mean equal exact sums, and by `RunningSum.eq_of_sums_eq` a stream with
one or two wrong units never has the sums of the pattern.

`reportCheckPage` is `CrcCheckPage` with the reports of `CheckRegion`.

* `block_checksum_detects`: one or two wrong units in a stream are seen by the checksum, and then
  every wrong word of the block is reported.
-/

namespace StressAppTest

open RunningSum Finset

/-! ## Streams of a block -/

/-- The place of unit `j` of stream `c` in a block. -/
def streamPlace (c j : Nat) : Nat := 4 * (j / 2) + 2 * c + j % 2

/-- The units of a block that differ from the pattern, in stream `c`: units 0 and 1, or units 2
and 3 of every four. -/
def wrongUnits (u v : Nat → Word32) (c : Nat) : Finset Nat :=
  (range 1024).filter fun i => i % 4 / 2 = c ∧ u i ≠ v i

theorem streamPlace_inj (c : Nat) : Function.Injective (streamPlace c) := by
  intro j k h
  unfold streamPlace at h
  omega

/-- The wrong units of a stream, by their place in the stream. -/
theorem card_wrongUnits (u v : Nat → Word32) {c : Nat} (hc : c < 2) :
    (wrongUnits u v c).card =
      ((range 512).filter fun j => u (streamPlace c j) ≠ v (streamPlace c j)).card := by
  have himage : wrongUnits u v c =
      ((range 512).filter fun j => u (streamPlace c j) ≠ v (streamPlace c j)).image (streamPlace c) := by
    ext i
    simp only [wrongUnits, mem_filter, mem_range, mem_image]
    constructor
    · rintro ⟨hi, hmod, hne⟩
      have hplace : streamPlace c (2 * (i / 4) + i % 2) = i := by
        unfold streamPlace
        omega
      exact ⟨2 * (i / 4) + i % 2, ⟨by omega, by rwa [hplace]⟩, hplace⟩
    · rintro ⟨j, ⟨hj, hne⟩, rfl⟩
      refine ⟨?_, ?_, hne⟩
      · unfold streamPlace
        omega
      · unfold streamPlace
        omega
  rw [himage, card_image_of_injective _ (streamPlace_inj c)]

/-- Equal checksums of a block are equal exact sums. -/
theorem exactSum_eq_of_sum_eq {u v : Nat → Word32}
    (h : AdlerChecksum.sum u 256 = AdlerChecksum.sum v 256) : ExactSum.sum u 256 = ExactSum.sum v 256 := by
  rw [← AdlerChecksum.toExact_sum u (by norm_num), ← AdlerChecksum.toExact_sum v (by norm_num), h]

/-- **Detection.** A stream with one or two wrong units changes the checksum. -/
theorem sum_ne_of_wrongUnits {u v : Nat → Word32} {c : Nat} (hc : c < 2)
    (hpos : 1 ≤ (wrongUnits u v c).card) (hle : (wrongUnits u v c).card ≤ 2) :
    AdlerChecksum.sum u 256 ≠ AdlerChecksum.sum v 256 := by
  intro heq
  have hexact := exactSum_eq_of_sum_eq heq
  rw [ExactSum.sum_eq, ExactSum.sum_eq] at hexact
  simp only [ExactSum.mk.injEq] at hexact
  obtain ⟨ha1, ha2, hb1, hb2⟩ := hexact
  rw [card_wrongUnits u v hc] at hpos hle
  -- both streams are of the form `unit (streamPlace c j)`
  have hstream : plain 1 (fun j => (u (streamPlace c j)).toNat) 512 =
        plain 1 (fun j => (v (streamPlace c j)).toNat) 512 ∧
      weighted 1 (fun j => (u (streamPlace c j)).toNat) 512 =
        weighted 1 (fun j => (v (streamPlace c j)).toNat) 512 := by
    rcases (by omega : c = 0 ∨ c = 1) with rfl | rfl
    · exact ⟨ha1, hb1⟩
    · exact ⟨ha2, hb2⟩
  have hfilter : ((range 512).filter fun j => (u (streamPlace c j)).toNat ≠ (v (streamPlace c j)).toNat) =
      (range 512).filter fun j => u (streamPlace c j) ≠ v (streamPlace c j) := by
    refine filter_congr fun j _ => ?_
    rw [ne_eq, BitVec.toNat_inj]
  have hsame := eq_of_sums_eq hstream.1 hstream.2 (by rw [hfilter]; exact hle)
  obtain ⟨j, hj⟩ := card_pos.mp hpos
  rw [mem_filter, mem_range] at hj
  exact hj.2 (BitVec.eq_of_toNat_eq (hsame j hj.1))

/-! ## `CrcCheckPage` with its reports -/

namespace Sat

/-- The arguments of `CrcCheckPage`: the entry of the page and the two names. -/
structure CheckedPage where
  memblock : Nat
  pattern : Pattern
  patternId : Option Nat
  lastcpu : Nat
  writeDramFrequency : Int
  workerName : String
  phase : String
  offset : Word64

/-- The region of a page from a block on. -/
def CheckedPage.region (page : CheckedPage) (block length : Nat) : Region where
  addr := page.memblock + 512 * block
  pattern := page.pattern
  patternId := page.patternId
  lastcpu := page.lastcpu
  length := length
  offset := block * 4096
  patternOffset := 0
  writeDramFrequency := page.writeDramFrequency
  workerName := page.workerName
  phase := page.phase
  satPageOffset := page.offset

/-- One block of `CrcCheckPage`. The repair of a tag is not reported through `ProcessError`. -/
def reportCheckBlock (sat : Sat) (frequency : Nat → Bool → Nat → Int) (page : CheckedPage)
    (currentblock : Nat) (s : Reports × Nat) : Option (Reports × Nat) :=
  match sat.blockCrc s.1.mem (page.memblock + 512 * currentblock) page.pattern with
  | none => some s
  | some crc =>
    let w := { s.1 with mem := crc.mem, errorcount := s.1.errorcount + crc.errorcount }
    if crc.sum = page.pattern.crc then some (w, s.2)
    else (sat.reportRegion (frequency currentblock) (page.region currentblock 4096) w).map fun done =>
      (done.1, s.2 + done.2)

/-- The part of a page that is shorter than a block. -/
def reportLeftovers (sat : Sat) (frequency : Nat → Bool → Nat → Int) (page : CheckedPage)
    (s : Reports × Nat) : Option (Reports × Nat) :=
  if sat.pageLength % 4096 = 0 then some s
  else
    let blocks := sat.pageLength / 4096
    (sat.reportRegion (frequency blocks) (page.region blocks (sat.pageLength % 4096)) s.1).map fun done =>
      (done.1, s.2 + done.2)

/-- The loop over the blocks. -/
def reportBlocks (sat : Sat) (frequency : Nat → Bool → Nat → Int) (page : CheckedPage) (w : Reports)
    (blocks : Nat) : Option (Reports × Nat) :=
  forUpTo blocks (fun b s => s.bind (sat.reportCheckBlock frequency page b)) (some (w, 0))

/-- `WorkerThread::CrcCheckPage` -/
def reportCheckPage (sat : Sat) (frequency : Nat → Bool → Nat → Int) (page : CheckedPage) (w : Reports) :
    Option (Reports × Nat) :=
  (sat.reportBlocks frequency page w (sat.pageLength / 4096)).bind (sat.reportLeftovers frequency page)

variable {sat : Sat} {page : CheckedPage} {frequency : Nat → Bool → Nat → Int}

/-- The state with reports has the memory and the counts of the state without. -/
structure Shows (w₀ : Reports) (s : Reports × Nat) (c : Checked) : Prop where
  mem : s.1.mem = c.mem
  errors : s.2 = c.errors
  errorcount : s.1.errorcount = w₀.errorcount + c.errorcount

/-- A region that is compared, with and without reports. -/
theorem Shows.region {w₀ : Reports} {s : Reports × Nat} {c : Checked} (h : Shows w₀ s c) (r : Region)
    (f : Bool → Nat → Int) :
    ∃ w', (sat.reportRegion f r s.1).map (fun done => (done.1, s.2 + done.2)) = some w' ∧
      Shows w₀ w' ⟨(sat.checkRegion c.mem r.addr r.pattern r.length r.patternOffset).1,
        c.errors + (sat.checkRegion c.mem r.addr r.pattern r.length r.patternOffset).2,
        c.errorcount + (sat.checkRegion c.mem r.addr r.pattern r.length r.patternOffset).2⟩ := by
  obtain ⟨w', hrun, hrep⟩ := reportRegion_repaired sat r f s.1
  have hmem := repaired_mem_eq hrep.mem
  have hcheck := checkRegion_eq sat r c.mem
  rw [hrun, Option.map_some, hcheck, ← h.mem]
  refine ⟨_, rfl, hmem, ?_, ?_⟩
  · rw [h.errors]
  · rw [hrep.errorcount, h.errorcount, Nat.add_assoc]

theorem Shows.block {w₀ : Reports} {s : Reports × Nat} {c : Checked} (h : Shows w₀ s c) (b : Nat) :
    ∃ s', sat.reportCheckBlock frequency page b s = some s' ∧
      Shows w₀ s' (sat.crcCheckBlock page.memblock page.pattern b c) := by
  -- the checksum pass repairs the tags in both
  have htags : Shows w₀
      ({ s.1 with
          mem := sat.repairTags c.mem (page.memblock + 512 * b) 512
          errorcount := s.1.errorcount + sat.tagErrors c.mem (page.memblock + 512 * b) 512 }, s.2)
      ⟨sat.repairTags c.mem (page.memblock + 512 * b) 512, c.errors,
        c.errorcount + sat.tagErrors c.mem (page.memblock + 512 * b) 512⟩ := by
    refine ⟨rfl, h.errors, ?_⟩
    dsimp only
    rw [h.errorcount, Nat.add_assoc]
  simp only [reportCheckBlock, crcCheckBlock, blockCrc_eq, h.mem]
  split
  · exact ⟨_, rfl, htags⟩
  · exact htags.region (page.region b 4096) (frequency b)

theorem Shows.leftovers {w₀ : Reports} {s : Reports × Nat} {c : Checked} (h : Shows w₀ s c) :
    ∃ s', sat.reportLeftovers frequency page s = some s' ∧
      Shows w₀ s' (sat.checkLeftovers page.memblock page.pattern c) := by
  simp only [reportLeftovers, checkLeftovers]
  split
  · exact ⟨s, rfl, h⟩
  · exact h.region (page.region (sat.pageLength / 4096) (sat.pageLength % 4096)) _

theorem reportBlocks_shows (sat : Sat) (page : CheckedPage) (frequency : Nat → Bool → Nat → Int)
    (w : Reports) (k : Nat) :
    ∃ s', sat.reportBlocks frequency page w k = some s' ∧
      Shows w s' (forUpTo k (sat.crcCheckBlock page.memblock page.pattern) ⟨w.mem, 0, 0⟩) := by
  induction k with
  | zero => exact ⟨(w, 0), rfl, rfl, rfl, rfl⟩
  | succ k ih =>
      obtain ⟨s, hrun, hs⟩ := ih
      rw [reportBlocks] at hrun ⊢
      rw [forUpTo, forUpTo, hrun, Option.bind_some]
      exact hs.block k

/-- `CrcCheckPage` without its reports is `Sat.crcCheckPage`. -/
theorem reportCheckPage_shows (sat : Sat) (page : CheckedPage) (frequency : Nat → Bool → Nat → Int)
    (w : Reports) :
    ∃ s', sat.reportCheckPage frequency page w = some s' ∧
      Shows w s' (sat.crcCheckPage w.mem page.memblock page.pattern) := by
  obtain ⟨s, hrun, hs⟩ := reportBlocks_shows sat page frequency w (sat.pageLength / 4096)
  rw [reportCheckPage, hrun, Option.bind_some]
  exact hs.leftovers

/-! ## Every wrong word is reported -/

/-- What `CheckRegion` reports of word `i` of block `b`. -/
def blockWord (sat : Sat) (page : CheckedPage) (mem : Mem) (b i : Nat) :
    Nat × Word64 × Word64 × Word64 × Nat :=
  (page.memblock + 512 * b + i, mem (page.memblock + 512 * b + i), mem (page.memblock + 512 * b + i),
    sat.expected (page.region b 4096) i, b * 4096 + i * 8)

/-- The checksum of block `b` is not the one of the pattern. -/
def ChecksumDiffers (sat : Sat) (page : CheckedPage) (mem : Mem) (b : Nat) : Prop :=
  AdlerChecksum.sum (sat.blockUnit mem (page.memblock + 512 * b) page.pattern) 256 ≠ page.pattern.crc

variable (page frequency) in
/-- Without tags a block touches its own words only, and reports all wrong ones if its checksum
differs. -/
theorem reportCheckBlock_calls (htag : sat.tagMode = false) (b : Nat) (s : Reports × Nat) :
    ∃ s' calls, sat.reportCheckBlock frequency page b s = some s' ∧
      (∀ a, ¬ (page.memblock + 512 * b ≤ a ∧ a < page.memblock + 512 * b + 512) →
        s'.1.mem a = s.1.mem a) ∧
      s'.1.calls = s.1.calls ++ calls ∧
      (sat.ChecksumDiffers page s.1.mem b → ∀ i < 512,
        s.1.mem (page.memblock + 512 * b + i) ≠ sat.expected (page.region b 4096) i →
          sat.blockWord page s.1.mem b i ∈ calls.map ErrorCall.word) := by
  have hrepair : sat.repairTags s.1.mem (page.memblock + 512 * b) 512 = s.1.mem := by
    rw [repairTags, htag]
    rfl
  simp only [reportCheckBlock, blockCrc_eq, hrepair]
  split
  · next heq =>
    refine ⟨_, [], rfl, fun _ _ => rfl, (List.append_nil _).symm, ?_⟩
    intro hdiff
    exact absurd heq hdiff
  · obtain ⟨w', calls, hrun, hmem, -, -, hcalls, hwords, -, -, hframe⟩ := report_region sat
      (page.region b 4096) (frequency b)
      { s.1 with errorcount := s.1.errorcount + sat.tagErrors s.1.mem (page.memblock + 512 * b) 512 }
    have hlen : (page.region b 4096).length / 8 = 512 := by
      change 4096 / 8 = 512
      rfl
    simp only [hlen] at hmem hframe
    rw [hrun, Option.map_some]
    refine ⟨_, calls, rfl, hframe, hcalls, ?_⟩
    intro _ i hi hwrong
    rw [hwords, List.mem_map]
    exact ⟨i, (hmem i).mpr ⟨hi, hwrong⟩, rfl⟩

variable (page frequency) in
/-- The blocks below `k` have been checked as they were at the start. -/
theorem reportBlocks_calls (htag : sat.tagMode = false) (w : Reports) (k : Nat) :
    ∃ s calls, sat.reportBlocks frequency page w k = some s ∧
      (∀ a, ¬ (page.memblock ≤ a ∧ a < page.memblock + 512 * k) → s.1.mem a = w.mem a) ∧
      s.1.calls = w.calls ++ calls ∧
      ∀ b < k, sat.ChecksumDiffers page w.mem b → ∀ i < 512,
        w.mem (page.memblock + 512 * b + i) ≠ sat.expected (page.region b 4096) i →
          sat.blockWord page w.mem b i ∈ calls.map ErrorCall.word := by
  induction k with
  | zero =>
      refine ⟨(w, 0), [], rfl, fun _ _ => rfl, (List.append_nil _).symm, ?_⟩
      intro b hb
      exact absurd hb (Nat.not_lt_zero b)
  | succ k ih =>
      obtain ⟨s, calls, hrun, hframe, hcalls, hdone⟩ := ih
      obtain ⟨s', calls', hrun', hframe', hcalls', hblock⟩ :=
        reportCheckBlock_calls page frequency htag k s
      rw [reportBlocks] at hrun ⊢
      rw [forUpTo, hrun, Option.bind_some]
      -- block `k` is as it was
      have hword : ∀ i < 512, s.1.mem (page.memblock + 512 * k + i) = w.mem (page.memblock + 512 * k + i) :=
        fun i hi => hframe _ (by omega)
      have hsum : sat.ChecksumDiffers page s.1.mem k ↔ sat.ChecksumDiffers page w.mem k := by
        have hunit : AdlerChecksum.sum (sat.blockUnit s.1.mem (page.memblock + 512 * k) page.pattern) 256 =
            AdlerChecksum.sum (sat.blockUnit w.mem (page.memblock + 512 * k) page.pattern) 256 := by
          refine AdlerChecksum.sum_congr fun i hi => ?_
          simp only [blockUnit, htag]
          change StressAppTest.unitAt _ _ _ = StressAppTest.unitAt _ _ _
          rw [StressAppTest.unitAt, StressAppTest.unitAt, hword _ (by omega)]
        rw [ChecksumDiffers, ChecksumDiffers, hunit]
      refine ⟨s', calls ++ calls', hrun', ?_, by rw [hcalls', hcalls, List.append_assoc], ?_⟩
      · intro a ha
        rw [hframe' a (by omega), hframe a (by omega)]
      · intro b hb hdiff i hi hwrong
        rw [List.map_append, List.mem_append]
        rcases Nat.lt_succ_iff_lt_or_eq.mp hb with hlt | rfl
        · exact Or.inl (hdone b hlt hdiff i hi hwrong)
        · right
          have := hblock (hsum.mpr hdiff) i hi (by rwa [hword i hi])
          rwa [blockWord, hword i hi] at this

/-- **What the checksum detects.** If one of the streams of a block differs from the pattern in
one or two units, the checksum of the block differs from the one of the pattern, and
`CrcCheckPage` reports every wrong word of the block. -/
theorem block_checksum_detects (sat : Sat) (htag : sat.tagMode = false)
    (frequency : Nat → Bool → Nat → Int) (page : CheckedPage) (w : Reports) {b : Nat}
    (hb : b < sat.pageLength / 4096) {c : Nat} (hc : c < 2)
    (hpos : 1 ≤ (wrongUnits (StressAppTest.unitAt w.mem (page.memblock + 512 * b))
      page.pattern.pattern c).card)
    (hle : (wrongUnits (StressAppTest.unitAt w.mem (page.memblock + 512 * b))
      page.pattern.pattern c).card ≤ 2) :
    (∃ crc, calculateAdlerChecksum w.mem (page.memblock + 512 * b) 4096 = some crc ∧
      crc ≠ page.pattern.crc) ∧
    ∃ w' errors calls, sat.reportCheckPage frequency page w = some (w', errors) ∧
      w'.calls = w.calls ++ calls ∧
      ∀ i < 512, w.mem (page.memblock + 512 * b + i) ≠ patternData page.pattern 0 i →
        (page.memblock + 512 * b + i, w.mem (page.memblock + 512 * b + i),
          w.mem (page.memblock + 512 * b + i), patternData page.pattern 0 i, b * 4096 + i * 8) ∈
            calls.map ErrorCall.word := by
  have hne := sum_ne_of_wrongUnits hc hpos hle
  rw [← page.pattern.crc_eq_sum] at hne
  have hcount : adlerCount 4096 = some 512 := by decide
  refine ⟨⟨_, calculateAdlerChecksum_eq hcount, hne⟩, ?_⟩
  obtain ⟨s, calls, hrun, -, hcalls, hdone⟩ := reportBlocks_calls page frequency htag w
    (sat.pageLength / 4096)
  have hdiff : sat.ChecksumDiffers page w.mem b := by
    rw [ChecksumDiffers, blockUnit, htag]
    exact hne
  have hexpected : ∀ i, sat.expected (page.region b 4096) i = patternData page.pattern 0 i := by
    intro i
    rw [Sat.expected, regionWord, htag]
    rfl
  obtain ⟨s', calls', hleft, hcalls'⟩ : ∃ s' calls', sat.reportLeftovers frequency page s = some s' ∧
      s'.1.calls = s.1.calls ++ calls' := by
    rw [reportLeftovers]
    split
    · exact ⟨s, [], rfl, (List.append_nil _).symm⟩
    · obtain ⟨w', calls', hregion, -, -, -, hcalls', -⟩ := report_region sat
        (page.region (sat.pageLength / 4096) (sat.pageLength % 4096)) (frequency (sat.pageLength / 4096)) s.1
      simp only [hregion, Option.map_some]
      exact ⟨_, calls', rfl, hcalls'⟩
  refine ⟨s'.1, s'.2, calls ++ calls', ?_, by rw [hcalls', hcalls, List.append_assoc], ?_⟩
  · rw [reportCheckPage, hrun, Option.bind_some, hleft]
  · intro i hi hwrong
    have := hdone b hb hdiff i hi (by rwa [hexpected])
    rw [blockWord, hexpected] at this
    rw [List.map_append, List.mem_append]
    exact Or.inl this

/-- A page of ones. -/
def onesPage : CheckedPage := ⟨8, .ones, some 40, 0, -1, "check", "source_check", 0⟩

/-- Ones, with zero in the first unit of the page. -/
def flippedMem : Mem := Function.update (fun _ => BitVec.allOnes 64) 8 (datacast 0 (BitVec.allOnes 32))

theorem wrongUnits_flippedMem :
    wrongUnits (StressAppTest.unitAt flippedMem 8) Pattern.ones.pattern 0 = {0} := by
  have hlow : low (BitVec.allOnes 64) = BitVec.allOnes 32 := by decide
  have hhigh : high (BitVec.allOnes 64) = BitVec.allOnes 32 := by decide
  ext i
  rw [wrongUnits, mem_filter, mem_range, mem_singleton, Pattern.ones_pattern]
  constructor
  · rintro ⟨-, -, hne⟩
    by_contra hi
    refine hne ?_
    rw [StressAppTest.unitAt, flippedMem]
    by_cases hword : 8 + i / 2 = 8
    · rw [hword, Function.update_self, if_neg (by omega), high_datacast]
    · rw [Function.update_of_ne hword, hlow, hhigh, ite_self]
  · rintro rfl
    exact ⟨by norm_num, rfl, by decide⟩

/-- One wrong unit, on a page of one block. -/
theorem block_checksum_detects_flipped :
    (wrongUnits (StressAppTest.unitAt flippedMem 8) Pattern.ones.pattern 0).card = 1 ∧
    ∃ crc, calculateAdlerChecksum flippedMem 8 4096 = some crc ∧ crc ≠ Pattern.ones.crc := by
  have hcard : (wrongUnits (StressAppTest.unitAt flippedMem 8) Pattern.ones.pattern 0).card = 1 := by
    rw [wrongUnits_flippedMem, card_singleton]
  have hdetects := block_checksum_detects oneBlock rfl (fun _ _ _ => -1) onesPage
    ⟨flippedMem, 0, [], [], []⟩ (b := 0) (by decide) (c := 0) (by norm_num) (Nat.le_of_eq hcard.symm)
    (by rw [show (wrongUnits (StressAppTest.unitAt flippedMem (onesPage.memblock + 512 * 0))
      onesPage.pattern.pattern 0).card = 1 from hcard]; norm_num)
  exact ⟨hcard, hdetects.1⟩

end Sat

end StressAppTest
