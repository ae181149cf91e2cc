import Mathlib.Data.Nat.Count
import StressAppTest.Memory.Transform

/-!
# Sector tags on the way through a file (`FileThread::SectorValidatePage`)

`Sat.sectorValidatePage` is the memory and the count of the function. Here is all of it: the errors
that it puts in on demand, the four bytes of a tag that it compares one by one, and the range of
file blocks that its repair covers. It is the same function (`validatePage_eq`), and all of its
repair runs exactly once.

* `errorcount_validatePage`: a sector is counted if and only if one of the bytes of its tag is wrong.
* `unitOf_validatePage_good`, `unitOf_validatePage_bad`: every unit of the page on return. The
  repair counts 64-bit words and writes 32-bit ones, and so it stops half way.
-/

namespace StressAppTest

/-! ## Stores of units -/

/-- The unit of a store that no later store of the loop goes to. -/
theorem unitOf_stores_self {n : Nat} {place : Nat → Nat} {f : Nat → Word32} {mem : Mem}
    (hinj : Function.Injective place) {k : Nat} (hk : k < n) :
    unitOf (forUpTo n (fun i m => setUnit m (place i) (f i)) mem) (place k) = f k := by
  induction n with
  | zero => exact absurd hk (Nat.not_lt_zero k)
  | succ n ih =>
      rw [forUpTo, unitOf_setUnit]
      by_cases hkn : k = n
      · rw [hkn, if_pos rfl]
      · rw [if_neg (fun h => hkn (hinj h)), ih (by omega)]

/-- A unit that no store goes to. -/
theorem unitOf_stores_other {n : Nat} {place : Nat → Nat} {f : Nat → Word32} {mem : Mem} {v : Nat}
    (hv : ∀ i < n, v ≠ place i) :
    unitOf (forUpTo n (fun i m => setUnit m (place i) (f i)) mem) v = unitOf mem v := by
  induction n with
  | zero => rfl
  | succ n ih =>
      rw [forUpTo, unitOf_setUnit, if_neg (hv n (Nat.lt_succ_self n)),
        ih fun i hi => hv i (Nat.lt_succ_of_lt hi)]

/-- The unit of the tag of a sector. -/
def tagUnit (base sec : Nat) : Nat := 2 * (base + 64 * sec)

theorem tagUnit_injective (base : Nat) : Function.Injective (tagUnit base) := by
  intro i j h
  unfold tagUnit at h
  omega

/-! ## Tags -/

/-- `struct SectorTag` without its padding. -/
structure SectorTag where
  magic : BitVec 8
  block : BitVec 8
  sector : BitVec 8
  pass : BitVec 8
  deriving DecidableEq

/-- The bytes of a concatenation. -/
theorem bytes_append (a b c d : BitVec 8) :
    (a ++ b ++ c ++ d).extractLsb' 0 8 = d ∧ (a ++ b ++ c ++ d).extractLsb' 8 8 = c ∧
      (a ++ b ++ c ++ d).extractLsb' 16 8 = b ∧ (a ++ b ++ c ++ d).extractLsb' 24 8 = a := by
  refine ⟨?_, ?_, ?_, ?_⟩ <;> ext i hi <;> rw [BitVec.getElem_extractLsb', BitVec.getLsbD_append]
  · grind
  · rw [BitVec.getLsbD_append]
    grind
  · rw [BitVec.getLsbD_append, BitVec.getLsbD_append]
    grind
  · rw [BitVec.getLsbD_append, BitVec.getLsbD_append]
    grind

theorem append_bytes (x : Word32) :
    x.extractLsb' 24 8 ++ x.extractLsb' 16 8 ++ x.extractLsb' 8 8 ++ x.extractLsb' 0 8 = x := by
  rw [BitVec.extractLsb'_append_extractLsb'_eq_extractLsb' (by omega),
    BitVec.extractLsb'_append_extractLsb'_eq_extractLsb' (by omega),
    BitVec.extractLsb'_append_extractLsb'_eq_extractLsb' (by omega)]
  exact BitVec.extractLsb'_eq_self

namespace SectorTag

/-- The tag in a unit. -/
def ofUnit (x : Word32) : SectorTag :=
  ⟨x.extractLsb' 0 8, x.extractLsb' 8 8, x.extractLsb' 16 8, x.extractLsb' 24 8⟩

/-- The tag that `SectorTagPage` writes. -/
def written (threadNum block sec pass : Nat) : SectorTag :=
  ⟨BitVec.ofNat 8 (0xba + threadNum), BitVec.ofNat 8 block, BitVec.ofNat 8 sec, BitVec.ofNat 8 pass⟩

theorem ofUnit_sectorTag (threadNum block sec pass : Nat) :
    ofUnit (Sat.sectorTag (0xba + threadNum) block sec pass) = written threadNum block sec pass := by
  obtain ⟨hmagic, hblock, hsector, hpass⟩ := bytes_append (BitVec.ofNat 8 pass) (BitVec.ofNat 8 sec)
    (BitVec.ofNat 8 block) (BitVec.ofNat 8 (0xba + threadNum))
  rw [ofUnit, written, Sat.sectorTag, SectorTag.mk.injEq]
  exact ⟨hmagic, hblock, hsector, hpass⟩

theorem ofUnit_injective : Function.Injective ofUnit := by
  intro x y h
  simp only [ofUnit, SectorTag.mk.injEq] at h
  obtain ⟨hmagic, hblock, hsector, hpass⟩ := h
  rw [← append_bytes x, hmagic, hblock, hsector, hpass, append_bytes]

end SectorTag

/-! ## `SectorValidatePage` -/

/-- The errors that `--force_error` asks for, in the second and the eighteenth call. -/
def injectErrors (errorInjection : Bool) (calls : Nat) (mem : Mem) (base : Nat) : Mem :=
  if errorInjection then
    let mem :=
      if calls = 2 then
        forUpTo 9 (fun i m =>
          setUnit m (tagUnit base (8 + i)) (27#8 ++ (unitOf m (tagUnit base (8 + i))).extractLsb' 0 24)) mem
      else mem
    if calls = 18 then setUnit mem (2 * base + 27) 0xbadda7a else mem
  else mem

/-- The variables of `SectorValidatePage`. -/
structure SectorScan where
  mem : Mem
  errorcount : Nat
  badsector : Bool
  firstsector : Int
  lastsector : Int

namespace Sat

/-- The number of a sector in the file. -/
def fileSector (sat : Sat) (block sec : Nat) : Int := (block * sat.pageLength / 512 + sec : Nat)

/-- One sector: its tag is checked and then patched back to the pattern. -/
def scanSector (sat : Sat) (base threadNum block pass : Nat) (p : Pattern) (sec : Nat)
    (s : SectorScan) : SectorScan :=
  let tag := SectorTag.ofUnit (unitOf s.mem (tagUnit base sec))
  let s :=
    if tag.magic ≠ BitVec.ofNat 8 (0xba + threadNum) ∨ tag.block ≠ BitVec.ofNat 8 block ∨
        tag.sector ≠ BitVec.ofNat 8 sec ∨ tag.pass ≠ BitVec.ofNat 8 pass then
      { s with
        errorcount := s.errorcount + 1
        badsector := true
        firstsector := if s.firstsector = -1 then sat.fileSector block sec else s.firstsector
        lastsector := sat.fileSector block sec }
    else s
  { s with mem := setUnit s.mem (tagUnit base sec) (p.pattern (512 * sec / 4)) }

/-- The repair, over the file blocks of the wrong sectors. Each pass writes to the same page. -/
def repairBlocks (sat : Sat) (base : Nat) (p : Pattern) (firstsector lastsector : Int) (mem : Mem) :
    Mem :=
  forUpTo (lastsector * 512 / sat.pageLength + 1 - firstsector * 512 / sat.pageLength).toNat
    (fun _ m => forUpTo (sat.pageLength / 8) (fun i m => setUnit m (2 * base + i) (p.pattern i)) m) mem

/-- `FileThread::SectorValidatePage`, in the call of this number. -/
def validatePage (sat : Sat) (errorInjection : Bool) (calls : Nat) (mem : Mem)
    (base threadNum block pass : Nat) (p : Pattern) : SectorScan :=
  let s := forUpTo (sat.pageLength / 512) (sat.scanSector base threadNum block pass p)
    ⟨injectErrors errorInjection calls mem base, 0, false, -1, -1⟩
  if s.badsector then { s with mem := sat.repairBlocks base p s.firstsector s.lastsector s.mem } else s

/-- The memory, the count and the flag. -/
def toSectors (s : SectorScan) : Sectors := ⟨s.mem, s.errorcount, s.badsector⟩

/-- The sectors that are kept lie in the page. -/
def RangeOk (sat : Sat) (block : Nat) (s : SectorScan) : Prop :=
  (s.firstsector = -1 ∨ ∃ i < sat.pageLength / 512, s.firstsector = sat.fileSector block i) ∧
    (s.badsector = true → s.firstsector ≠ -1 ∧
      ∃ j < sat.pageLength / 512, s.lastsector = sat.fileSector block j)

variable {sat : Sat} {mem : Mem} {base threadNum block pass : Nat} {p : Pattern}

/-- A tag is wrong if one of its bytes is. -/
theorem tag_ne_iff (threadNum block pass sec : Nat) (tag : SectorTag) :
    (tag.magic ≠ BitVec.ofNat 8 (0xba + threadNum) ∨ tag.block ≠ BitVec.ofNat 8 block ∨
      tag.sector ≠ BitVec.ofNat 8 sec ∨ tag.pass ≠ BitVec.ofNat 8 pass) ↔
      tag ≠ SectorTag.written threadNum block sec pass := by
  cases tag
  simp only [SectorTag.written, ne_eq, SectorTag.mk.injEq]
  tauto

theorem unit_ne_iff (threadNum block pass sec : Nat) (x : Word32) :
    x ≠ sectorTag (0xba + threadNum) block sec pass ↔
      SectorTag.ofUnit x ≠ SectorTag.written threadNum block sec pass := by
  rw [← SectorTag.ofUnit_sectorTag, SectorTag.ofUnit_injective.ne_iff]

/-- One sector is what `validateSector` makes of it. -/
theorem scanSector_eq (sat : Sat) (sec : Nat) (s : SectorScan) :
    toSectors (sat.scanSector base threadNum block pass p sec s) =
      validateSector base threadNum block pass p sec (toSectors s) := by
  have hindex : 512 * sec / 4 = 128 * sec := by omega
  have hiff := (tag_ne_iff threadNum block pass sec
    (SectorTag.ofUnit (unitOf s.mem (tagUnit base sec)))).trans
      (unit_ne_iff threadNum block pass sec (unitOf s.mem (tagUnit base sec))).symm
  have hvalidate : validateSector base threadNum block pass p sec (toSectors s) =
      ⟨setUnit s.mem (tagUnit base sec) (p.pattern (128 * sec)),
        s.errorcount + (if unitOf s.mem (tagUnit base sec) != sectorTag (0xba + threadNum) block sec pass
          then 1 else 0),
        s.badsector || unitOf s.mem (tagUnit base sec) != sectorTag (0xba + threadNum) block sec pass⟩ :=
    rfl
  rw [hvalidate, scanSector, hindex]
  by_cases hbad : unitOf s.mem (tagUnit base sec) = sectorTag (0xba + threadNum) block sec pass
  · rw [bne_eq_false_iff_eq.mpr hbad]
    simp only [if_neg (hiff.not.mpr (not_not_intro hbad)), toSectors, Bool.false_eq_true, if_false,
      Nat.add_zero, Bool.or_false]
  · rw [bne_iff_ne.mpr hbad]
    simp only [if_pos (hiff.mpr hbad), toSectors, if_true, Bool.or_true]

/-- One sector keeps the range in the page. -/
theorem RangeOk.scanSector {s : SectorScan} (h : sat.RangeOk block s) {sec : Nat}
    (hsec : sec < sat.pageLength / 512) :
    sat.RangeOk block (sat.scanSector base threadNum block pass p sec s) := by
  have hne : sat.fileSector block sec ≠ -1 := by
    unfold fileSector
    omega
  rw [Sat.scanSector]
  split
  · refine ⟨?_, fun _ => ⟨?_, sec, hsec, rfl⟩⟩
    · simp only
      split
      · exact Or.inr ⟨sec, hsec, rfl⟩
      · exact h.1
    · simp only
      split
      · exact hne
      · next hfirst => exact hfirst
  · exact h

/-- A sector of a page lies in the file block of the page. -/
theorem fileSector_block (sat : Sat) (block : Nat) {sec : Nat} (hsec : sec < sat.pageLength / 512) :
    sat.fileSector block sec * 512 / sat.pageLength = block := by
  obtain ⟨k, -, hl⟩ := sat.pageLength_eq
  have hsectors : block * sat.pageLength / 512 = block * (2 * k) := by
    rw [hl, show block * (1024 * k) = block * (2 * k) * 512 by ring, Nat.mul_div_cancel _ (by omega)]
  have hsec' : sec < 2 * k := by omega
  have hprod : (block * (2 * k) + sec) * 512 = sec * 512 + sat.pageLength * block := by
    rw [hl]
    ring
  unfold fileSector
  rw [hsectors]
  have hnat : (block * (2 * k) + sec) * 512 / sat.pageLength = block := by
    rw [hprod, Nat.add_mul_div_left _ _ (by omega), Nat.div_eq_of_lt (by omega), Nat.zero_add]
  exact_mod_cast hnat

/-- The loop over the sectors, without the range. -/
theorem scanSectors_eq (sat : Sat) (mem : Mem) (base threadNum block pass : Nat) (p : Pattern) :
    let s := forUpTo (sat.pageLength / 512) (sat.scanSector base threadNum block pass p)
      ⟨mem, 0, false, -1, -1⟩
    toSectors s = forUpTo (sat.pageLength / 512) (validateSector base threadNum block pass p)
      ⟨mem, 0, false⟩ ∧ sat.RangeOk block s := by
  refine forUpTo_inv (fun k s => toSectors s =
    forUpTo k (validateSector base threadNum block pass p) ⟨mem, 0, false⟩ ∧ sat.RangeOk block s) ?_ ?_
  · exact ⟨rfl, Or.inl rfl, nofun⟩
  · rintro sec hsec s ⟨hs, hrange⟩
    exact ⟨by rw [scanSector_eq, hs, forUpTo], hrange.scanSector hsec⟩

/-- The repair goes once over the page. -/
theorem repairBlocks_eq (sat : Sat) (mem : Mem) {i j : Nat} (hi : i < sat.pageLength / 512)
    (hj : j < sat.pageLength / 512) :
    sat.repairBlocks base p (sat.fileSector block i) (sat.fileSector block j) mem =
      forUpTo (sat.pageLength / 8) (fun i m => setUnit m (2 * base + i) (p.pattern i)) mem := by
  rw [repairBlocks, fileSector_block sat block hi, fileSector_block sat block hj,
    show ((block : Int) + 1 - block).toNat = 1 by omega]
  rfl

/-- The function is the one without the range, on the page with the errors put in. -/
theorem validatePage_eq (sat : Sat) (errorInjection : Bool) (calls : Nat) (mem : Mem)
    (base threadNum block pass : Nat) (p : Pattern) :
    toSectors (sat.validatePage errorInjection calls mem base threadNum block pass p) =
      sat.sectorValidatePage (injectErrors errorInjection calls mem base) base threadNum block pass p := by
  obtain ⟨hscan, hrange⟩ := scanSectors_eq sat (injectErrors errorInjection calls mem base) base
    threadNum block pass p
  rw [validatePage, sectorValidatePage, ← hscan]
  generalize forUpTo (sat.pageLength / 512) (sat.scanSector base threadNum block pass p)
    ⟨injectErrors errorInjection calls mem base, 0, false, -1, -1⟩ = s at hrange ⊢
  by_cases hbad : s.badsector = true
  · obtain ⟨hne, j, hj, hlast⟩ := hrange.2 hbad
    obtain ⟨i, hi, hfirst⟩ := hrange.1.resolve_left hne
    simp only [toSectors, hbad, if_true, hfirst, hlast, repairBlocks_eq sat s.mem hi hj]
  · simp only [toSectors, hbad, if_false, Bool.false_eq_true]

/-! ## What it does to a page -/

/-- The tag of a sector is not the one that `SectorTagPage` writes. -/
def WrongTag (mem : Mem) (base threadNum block pass sec : Nat) : Prop :=
  SectorTag.ofUnit (unitOf mem (tagUnit base sec)) ≠ SectorTag.written threadNum block sec pass

instance (mem : Mem) (base threadNum block pass : Nat) :
    DecidablePred (WrongTag mem base threadNum block pass) := fun _ => instDecidableNot

/-- The loop over the sectors: the tags are counted as they were in the page. -/
theorem validateSectors_eq (mem : Mem) (base threadNum block pass : Nat) (p : Pattern) (n : Nat) :
    forUpTo n (validateSector base threadNum block pass p) ⟨mem, 0, false⟩ =
      ⟨forUpTo n (fun sec m => setUnit m (tagUnit base sec) (p.pattern (128 * sec))) mem,
        Nat.count (WrongTag mem base threadNum block pass) n,
        decide (0 < Nat.count (WrongTag mem base threadNum block pass) n)⟩ := by
  induction n with
  | zero => rfl
  | succ n ih =>
      have hread : unitOf (forUpTo n (fun sec m => setUnit m (tagUnit base sec) (p.pattern (128 * sec))) mem)
          (tagUnit base n) = unitOf mem (tagUnit base n) :=
        unitOf_stores_other fun i hi heq => absurd (tagUnit_injective base heq) (by omega)
      have hiff := unit_ne_iff threadNum block pass n (unitOf mem (tagUnit base n))
      rw [forUpTo, ih, Nat.count_succ, forUpTo]
      change Sectors.mk _ _ _ = _
      rw [show (2 * (base + 64 * n)) = tagUnit base n from rfl]
      simp only [hread]
      by_cases hwrong : WrongTag mem base threadNum block pass n
      · simp only [bne_iff_ne.mpr (hiff.mpr hwrong), if_pos hwrong, if_true, Bool.or_true,
          Nat.zero_lt_succ, decide_true]
      · simp only [bne_eq_false_iff_eq.mpr (not_not.mp (hiff.not.mpr hwrong)), if_neg hwrong,
          Bool.or_false, Nat.add_zero, Bool.false_eq_true, if_false]

theorem errorcount_sectorValidatePage (sat : Sat) (mem : Mem) (base threadNum block pass : Nat)
    (p : Pattern) : (sat.sectorValidatePage mem base threadNum block pass p).errorcount =
      Nat.count (WrongTag mem base threadNum block pass) (sat.pageLength / 512) := by
  rw [sectorValidatePage, validateSectors_eq]
  dsimp only
  split <;> rfl

/-- The units of a page after the tags are patched. -/
theorem unitOf_patched (mem : Mem) (base n : Nat) (p : Pattern) {u : Nat} (hu : u < 128 * n) :
    unitOf (forUpTo n (fun sec m => setUnit m (tagUnit base sec) (p.pattern (128 * sec))) mem)
        (2 * base + u) =
      if u % 128 = 0 then p.pattern u else unitOf mem (2 * base + u) := by
  split
  · next hmod =>
    have hplace : 2 * base + u = tagUnit base (u / 128) := by
      unfold tagUnit
      omega
    rw [hplace, unitOf_stores_self (tagUnit_injective base) (by omega),
      show 128 * (u / 128) = u by omega]
  · next hmod =>
    refine unitOf_stores_other fun i hi heq => hmod ?_
    unfold tagUnit at heq
    omega

/-- Every unit of the page on return: the repair reaches the units below `pageLength / 8`. -/
theorem unitOf_sectorValidatePage (sat : Sat) (mem : Mem) (base threadNum block pass : Nat)
    (p : Pattern) {u : Nat} (hu : u < sat.pageLength / 4) :
    unitOf (sat.sectorValidatePage mem base threadNum block pass p).mem (2 * base + u) =
      if u % 128 = 0 ∨ u < sat.pageLength / 8 ∧
          ∃ sec < sat.pageLength / 512, WrongTag mem base threadNum block pass sec then p.pattern u
      else unitOf mem (2 * base + u) := by
  obtain ⟨k, -, hl⟩ := sat.pageLength_eq
  have hpatched := unitOf_patched mem base (sat.pageLength / 512) p (u := u) (by omega)
  rw [sectorValidatePage, validateSectors_eq]
  by_cases hwrong : ∃ sec < sat.pageLength / 512, WrongTag mem base threadNum block pass sec
  · have hpos : 0 < Nat.count (WrongTag mem base threadNum block pass) (sat.pageLength / 512) :=
      Nat.pos_of_ne_zero (Nat.count_ne_iff_exists.mpr hwrong)
    simp only [hpos, decide_true, if_true, hwrong, and_true]
    by_cases hhalf : u < sat.pageLength / 8
    · rw [if_pos (Or.inr hhalf)]
      have hinj : Function.Injective fun i => 2 * base + i := fun i j h => by simpa using h
      exact unitOf_stores_self hinj hhalf
    · rw [unitOf_stores_other fun i hi heq => by omega, hpatched]
      simp only [hhalf, or_false]
  · have hzero : ¬ 0 < Nat.count (WrongTag mem base threadNum block pass) (sat.pageLength / 512) :=
      fun hpos => hwrong (Nat.count_ne_iff_exists.mp hpos.ne')
    simp only [hzero, decide_false, Bool.false_eq_true, if_false, hwrong, and_false, or_false]
    exact hpatched

/-- The tags of a page are the ones that `SectorTagPage` has written, and the rest is as before. -/
theorem unitOf_sectorTagPage (sat : Sat) (mem : Mem) (base threadNum block pass : Nat) {u : Nat}
    (hu : u < sat.pageLength / 4) :
    unitOf (sat.sectorTagPage mem base threadNum block pass) (2 * base + u) =
      if u % 128 = 0 then sectorTag (0xba + threadNum) block (u / 128) pass
      else unitOf mem (2 * base + u) := by
  obtain ⟨k, -, hl⟩ := sat.pageLength_eq
  change unitOf (forUpTo _ (fun sec m =>
    setUnit m (tagUnit base sec) (sectorTag (0xba + threadNum) block sec pass)) mem) _ = _
  split
  · next hmod =>
    have hplace : 2 * base + u = tagUnit base (u / 128) := by
      unfold tagUnit
      omega
    rw [hplace, unitOf_stores_self (f := fun sec => sectorTag (0xba + threadNum) block sec pass)
      (tagUnit_injective base) (by omega)]
  · next hmod =>
    refine unitOf_stores_other fun i hi heq => hmod ?_
    unfold tagUnit at heq
    omega

/-- The 32-bit words of the page at word address `base` are these. -/
def PageIs (sat : Sat) (mem : Mem) (base : Nat) (f : Nat → Word32) : Prop :=
  ∀ u < sat.pageLength / 4, unitOf mem (2 * base + u) = f u

/-- **Sector tags.** A page of its pattern that is tagged and comes back with the same bytes is accepted
and is the pattern again. Whatever the page holds when its tags are checked, each sector with a wrong
byte in its tag is counted once. -/
theorem sector_tags (sat : Sat) (p : Pattern) (threadNum block pass : Nat) (errorInjection : Bool)
    (calls : Nat) (mem' : Mem) (base' : Nat) :
    let page := injectErrors errorInjection calls mem' base'
    let s := sat.validatePage errorInjection calls mem' base' threadNum block pass p
    (∀ mem base, sat.PageIs mem base p.pattern →
      sat.PageIs page base' (fun u =>
        unitOf (sat.sectorTagPage mem base threadNum block pass) (2 * base + u)) →
      s.errorcount = 0 ∧ sat.PageIs s.mem base' p.pattern) ∧
    s.errorcount = Nat.count (fun sec => SectorTag.ofUnit (unitOf page (tagUnit base' sec)) ≠
      SectorTag.written threadNum block sec pass) (sat.pageLength / 512) := by
  intro page s
  obtain ⟨k, -, hl⟩ := sat.pageLength_eq
  have hvalidate := validatePage_eq sat errorInjection calls mem' base' threadNum block pass p
  have hmem : s.mem = (sat.sectorValidatePage page base' threadNum block pass p).mem :=
    congrArg Sectors.mem hvalidate
  have hcount : s.errorcount =
      Nat.count (WrongTag page base' threadNum block pass) (sat.pageLength / 512) :=
    (congrArg Sectors.errorcount hvalidate).trans (errorcount_sectorValidatePage ..)
  refine ⟨fun mem base hclean hback => ?_, hcount⟩
  have hright : ∀ sec < sat.pageLength / 512, ¬ WrongTag page base' threadNum block pass sec := by
    intro sec hsec hwrong
    have hunit := hback (128 * sec) (by omega)
    simp only at hunit
    rw [unitOf_sectorTagPage sat mem base threadNum block pass (by omega), if_pos (by omega),
      show 128 * sec / 128 = sec by omega,
      show 2 * base' + 128 * sec = tagUnit base' sec by unfold tagUnit; omega] at hunit
    rw [WrongTag, hunit] at hwrong
    exact hwrong (SectorTag.ofUnit_sectorTag threadNum block sec pass)
  have hnone : ¬ ∃ sec < sat.pageLength / 512, WrongTag page base' threadNum block pass sec := by
    rintro ⟨sec, hsec, hwrong⟩
    exact hright sec hsec hwrong
  constructor
  · rw [hcount]
    by_contra hne
    exact hnone (Nat.count_ne_iff_exists.mp hne)
  · intro u hu
    rw [hmem, unitOf_sectorValidatePage sat page base' threadNum block pass p hu]
    simp only [hnone, and_false, or_false]
    split
    · rfl
    · next hmod =>
      have hunit := hback u hu
      simp only at hunit
      rw [hunit, unitOf_sectorTagPage sat mem base threadNum block pass hu, if_neg hmod]
      exact hclean u hu

theorem unitOf_allOnes (u : Nat) : unitOf (fun _ => BitVec.allOnes 64) u = BitVec.allOnes 32 := by
  have hlow : low (BitVec.allOnes 64) = BitVec.allOnes 32 := by decide
  have hhigh : high (BitVec.allOnes 64) = BitVec.allOnes 32 := by decide
  unfold unitOf
  split
  · exact hlow
  · exact hhigh

/-- A page of ones goes out and comes back. -/
theorem sector_tags_ones :
    let sat := Sat.small 1 0
    let tagged := sat.sectorTagPage (fun _ => BitVec.allOnes 64) 8 5 2 300
    let s := sat.validatePage false 7 tagged 8 5 2 300 Pattern.ones
    s.errorcount = 0 ∧ sat.PageIs s.mem 8 Pattern.ones.pattern := by
  intro sat tagged s
  refine (sector_tags sat Pattern.ones 5 2 300 false 7 tagged 8).1 (fun _ => BitVec.allOnes 64) 8
    (fun u _ => ?_) (fun u _ => rfl)
  rw [unitOf_allOnes, Pattern.ones_pattern]

/-- With a wrong tag in the page: the page is its pattern on return if and only if its second half
was, outside the tags. -/
theorem sector_repair_iff (sat : Sat) (p : Pattern) (threadNum block pass : Nat)
    (errorInjection : Bool) (calls : Nat) (mem : Mem) (base : Nat)
    (hbad : ∃ sec < sat.pageLength / 512,
      WrongTag (injectErrors errorInjection calls mem base) base threadNum block pass sec) :
    sat.PageIs (sat.validatePage errorInjection calls mem base threadNum block pass p).mem base
        p.pattern ↔
      ∀ u < sat.pageLength / 4, sat.pageLength / 8 ≤ u → u % 128 ≠ 0 →
        unitOf (injectErrors errorInjection calls mem base) (2 * base + u) = p.pattern u := by
  have hmem := congrArg Sectors.mem
    (validatePage_eq sat errorInjection calls mem base threadNum block pass p)
  change SectorScan.mem _ = _ at hmem
  constructor
  · intro h u hu hhalf hmod
    have hunit := h u hu
    rw [hmem, unitOf_sectorValidatePage sat _ base threadNum block pass p hu,
      if_neg (by omega)] at hunit
    exact hunit
  · intro h u hu
    rw [hmem, unitOf_sectorValidatePage sat _ base threadNum block pass p hu]
    split
    · rfl
    · next hnot =>
      obtain ⟨hmod, hhalf⟩ := not_or.mp hnot
      have hge : sat.pageLength / 8 ≤ u := by
        by_contra hlt
        exact hhalf ⟨by omega, hbad⟩
      exact h u hu hge hmod

/-- A page of ones without tags is left as it is. -/
theorem sector_repair_ones :
    let s := (Sat.small 1 0).validatePage false 1 (fun _ => BitVec.allOnes 64) 8 5 2 0 Pattern.ones
    (Sat.small 1 0).PageIs s.mem 8 Pattern.ones.pattern := by
  intro s
  refine (sector_repair_iff (Sat.small 1 0) Pattern.ones 5 2 0 false 1 (fun _ => BitVec.allOnes 64) 8
    ⟨0, by decide, ?_⟩).mpr fun u _ _ _ => ?_
  · rw [WrongTag]
    decide
  · exact (unitOf_allOnes _).trans (Pattern.ones_pattern u).symm

/-- A page of zeros comes back, and the last word of it is still zero after the repair. -/
theorem sector_repair_half :
    let s := (Sat.small 1 0).validatePage false 1 (fun _ => 0) 8 5 2 0 Pattern.ones
    WrongTag (fun _ => 0) 8 5 2 0 0 ∧ 0 < s.errorcount ∧
      unitOf s.mem (2 * 8 + 255) = 0 ∧ Pattern.ones.pattern 255 = BitVec.allOnes 32 ∧
      ¬ (Sat.small 1 0).PageIs s.mem 8 Pattern.ones.pattern := by
  intro s
  have hwrong : WrongTag (fun _ => 0) 8 5 2 0 0 := by
    rw [WrongTag]
    decide
  have hvalidate := validatePage_eq (Sat.small 1 0) false 1 (fun _ => 0) 8 5 2 0 Pattern.ones
  have hcount : s.errorcount = Nat.count (WrongTag (fun _ => 0) 8 5 2 0) 2 :=
    (congrArg Sectors.errorcount hvalidate).trans (errorcount_sectorValidatePage ..)
  have hlast : unitOf s.mem (2 * 8 + 255) = 0 := by
    have hmem := congrArg Sectors.mem hvalidate
    change s.mem = _ at hmem
    rw [hmem, unitOf_sectorValidatePage _ _ _ _ _ _ _ (u := 255) (by decide), if_neg (by decide)]
    rfl
  refine ⟨hwrong, ?_, hlast, Pattern.ones_pattern 255, fun h => ?_⟩
  · rw [hcount]
    exact Nat.pos_of_ne_zero (Nat.count_ne_iff_exists.mpr ⟨0, Nat.two_pos, hwrong⟩)
  · have hunit := h 255 (by decide)
    rw [hlast, Pattern.ones_pattern] at hunit
    exact absurd hunit (by decide)

end Sat

end StressAppTest
