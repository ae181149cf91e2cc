import Mathlib.Tactic.Ring
import StressAppTest.PageEntry

/-!
# Pages of the test memory and `FillPage` (`worker.cc`)

`Sat` holds the settings that the workers read; its fields carry what option parsing has
checked. A page is a run of 64-bit words in the flat memory. `Sat.fillWord` is the word that
`FillPage` writes at each place of a page: the pattern, with the address of the word in the
first word of each 64-byte line in tag mode.

* `fillPage_eq`: in either direction and on either path, `FillPage` writes `fillWord` on the
  words of the page and nothing elsewhere.
* `Clean`: a region holds what `FillPage` writes there. Since patterns repeat after 4096
  bytes, a clean page is clean in each of its blocks (`Clean.block`).
-/

namespace StressAppTest

/-- `--fill-direction` -/
inductive FillDirection
  | up
  | down
  deriving DecidableEq, Repr

/-- `--fill-preset` -/
inductive FillPreset
  | none
  | zero
  | one
  deriving DecidableEq, Repr

/-- `--invert-range` -/
inductive InvertRange
  | full
  | legacy
  deriving DecidableEq, Repr

/-- The settings of a run, as far as the page workers read them. The test memory is mapped at
one address for the whole run; `virtualToPhysical` and `findRegion` are those of `os_`. -/
structure Sat where
  pages : Nat
  freepages : Nat
  pageLength : Nat
  testmem : Nat
  virtualToPhysical : Nat → Nat
  findRegion : Nat → Nat
  tagMode : Bool
  strict : Bool
  warm : Bool
  vector : Option Isa
  fillDirection : FillDirection
  fillYieldBytes : Nat
  fillPreset : FillPreset
  fillVerifyEvery : Nat
  copyVerifyDestination : Bool
  invertRange : InvertRange
  stopOnError : Bool
  legacyFinalCheckMode : Bool
  diskPages : Nat
  patternlist : PatternList
  length_eq : ∃ k, pageLength = 1024 * 2 ^ k
  testmem_dvd : 64 ∣ testmem
  testmem_pos : 0 < testmem
  findRegion_lt : ∀ paddr, findRegion paddr < 32

namespace Sat

/-- The number of 64-bit words of a page. -/
def pageWords (sat : Sat) : Nat := sat.pageLength / 8

/-- `os_->PrepareTestMem`: the address a page offset is mapped at. -/
def prepareTestMem (sat : Sat) (offset : Nat) : Nat := sat.testmem + offset

/-- The word address of page `i`. -/
def pageBase (sat : Sat) (i : Nat) : Nat := sat.testmem / 8 + i * sat.pageWords

/-- `addr_to_tag` of the word at word address `a`. -/
def addrToTag (a : Nat) : Word64 := BitVec.ofNat 64 (8 * a)

theorem pageLength_eq (sat : Sat) : ∃ k, sat.pageWords = 128 * k ∧ sat.pageLength = 1024 * k := by
  obtain ⟨k, hk⟩ := sat.length_eq
  exact ⟨2 ^ k, by rw [pageWords, hk]; omega, hk⟩

theorem pageLength_pos (sat : Sat) : 0 < sat.pageLength := by
  obtain ⟨k, hk⟩ := sat.length_eq
  rw [hk]
  exact Nat.mul_pos (by norm_num) (Nat.two_pow_pos k)

theorem pageWords_pos (sat : Sat) : 0 < sat.pageWords := by
  obtain ⟨k, hk⟩ := sat.length_eq
  have : 0 < 2 ^ k := Nat.two_pow_pos k
  rw [pageWords, hk]
  omega

theorem pageBase_mod (sat : Sat) (i : Nat) : sat.pageBase i % 8 = 0 := by
  obtain ⟨k, hk, -⟩ := sat.pageLength_eq
  obtain ⟨d, hd⟩ := sat.testmem_dvd
  rw [pageBase, hk, hd]
  have : 64 * d / 8 = 8 * d := by omega
  rw [this, show 8 * d + i * (128 * k) = 8 * (d + i * (16 * k)) by ring]
  omega

theorem prepareTestMem_div (sat : Sat) (i : Nat) :
    sat.prepareTestMem (i * sat.pageLength) / 8 = sat.pageBase i := by
  obtain ⟨k, hk, hl⟩ := sat.pageLength_eq
  obtain ⟨d, hd⟩ := sat.testmem_dvd
  rw [prepareTestMem, pageBase, hk, hl, hd]
  have h1 : 64 * d / 8 = 8 * d := by omega
  rw [h1, show 64 * d + i * (1024 * k) = 8 * (8 * d + i * (128 * k)) by ring]
  exact Nat.mul_div_cancel_left _ (by omega)

/-- Different pages have no word in common. -/
theorem pageBase_disjoint (sat : Sat) {i j : Nat} (h : i ≠ j) :
    DisjointWords (sat.pageBase i) (sat.pageBase j) sat.pageWords := by
  unfold DisjointWords pageBase
  have hmul {x y : Nat} (hxy : x < y) : x * sat.pageWords + sat.pageWords ≤ y * sat.pageWords := by
    calc x * sat.pageWords + sat.pageWords = (x + 1) * sat.pageWords := by ring
      _ ≤ y * sat.pageWords := Nat.mul_le_mul_right _ hxy
  rcases Nat.lt_or_gt_of_ne h with hlt | hgt
  · left
    have := hmul hlt
    omega
  · right
    have := hmul hgt
    omega

end Sat

/-! ## Writing a run of words -/

/-- The words `f 0, f 1, …, f (n - 1)` from word address `base` on. -/
def writeWords (mem : Mem) (base n : Nat) (f : Nat → Word64) : Mem := fun a =>
  if base ≤ a ∧ a < base + n then f (a - base) else mem a

theorem writeWords_apply {mem : Mem} {base n : Nat} {f : Nat → Word64} {i : Nat} (hi : i < n) :
    writeWords mem base n f (base + i) = f i := by
  rw [writeWords, if_pos (by omega), Nat.add_sub_cancel_left]

theorem writeWords_of_notMem {mem : Mem} {base n : Nat} {f : Nat → Word64} {a : Nat}
    (h : ¬ (base ≤ a ∧ a < base + n)) : writeWords mem base n f a = mem a := if_neg h

theorem writeWords_zero (mem : Mem) (base : Nat) (f : Nat → Word64) : writeWords mem base 0 f = mem := by
  funext a
  rw [writeWords, if_neg (by omega)]

/-- A loop over all places, in any order given by a bijection, writes the run. -/
theorem forUpTo_writeWords {mem : Mem} {base n : Nat} {f : Nat → Word64} (place : Nat → Nat)
    (hlt : ∀ s < n, place s < n) (hback : ∀ i < n, place (place i) = i) :
    forUpTo n (fun s m => Function.update m (base + place s) (f (place s))) mem =
      writeWords mem base n f := by
  have hloop : ∀ k ≤ n, ∀ a, forUpTo k
      (fun s m => Function.update m (base + place s) (f (place s))) mem a =
        if base ≤ a ∧ a < base + n ∧ place (a - base) < k then f (a - base) else mem a := by
    intro k hk a
    induction k with
    | zero => rw [if_neg (by omega)]; rfl
    | succ k ih =>
        rw [forUpTo]
        by_cases ha : a = base + place k
        · subst ha
          have hp := hlt k (by omega)
          have hpp := hback k (by omega)
          rw [Function.update_self, Nat.add_sub_cancel_left, if_pos (by omega)]
        · rw [Function.update_of_ne ha, ih (by omega)]
          by_cases hin : base ≤ a ∧ a < base + n
          · have hne : place (a - base) ≠ k := by
              rintro rfl
              rw [hback _ (by omega)] at ha
              omega
            by_cases hlt' : place (a - base) < k
            · rw [if_pos (by omega), if_pos (by omega)]
            · rw [if_neg (by omega), if_neg (by omega)]
          · rw [if_neg (by omega), if_neg (by omega)]
  funext a
  rw [hloop n (Nat.le_refl n), writeWords]
  by_cases hin : base ≤ a ∧ a < base + n
  · have := hlt (a - base) (by omega)
    rw [if_pos (by omega), if_pos hin]
  · rw [if_neg (by omega), if_neg hin]

/-! ## `FillPage` -/

/-- `Pattern::pattern_unshifted` -/
def Pattern.patternUnshifted (p : Pattern) (offset : Nat) : Word32 :=
  patternWord p.data p.busshift 0 p.inverse offset

/-- `Pattern::byte_offset` -/
def Pattern.byteOffset (p : Pattern) : Nat := p.wordOffset * 4

namespace Sat

/-- The place a pass of the fill loops writes: upwards, or downwards from the last word. -/
def fillPlace (sat : Sat) (step : Nat) : Nat :=
  if sat.fillDirection = .up then step else sat.pageWords - step - 1

/-- One word of the fill loops, with the pattern function of the path. -/
def fillData (sat : Sat) (memwords : Nat) (pattern : Nat → Word32) (i : Nat) : Word64 :=
  if sat.tagMode && i % 8 == 0 then addrToTag (memwords + i)
  else datacast (pattern (2 * i)) (pattern (2 * i + 1))

/-- `WorkerThread::FillPage`, for the page at word address `memwords`. `YieldSelf` writes no
memory. -/
def fillPage (sat : Sat) (mem : Mem) (memwords : Nat) (p : Pattern) : Mem :=
  if sat.fillDirection = .up ∧ sat.fillYieldBytes = 0 ∧ p.byteOffset = 0 then
    forUpTo sat.pageWords (fun i m =>
      Function.update m (memwords + i) (sat.fillData memwords p.patternUnshifted i)) mem
  else
    forUpTo sat.pageWords (fun step m =>
      let i := sat.fillPlace step
      Function.update m (memwords + i) (sat.fillData memwords p.pattern i)) mem

/-- `WorkerThread::FillPageWithConstant` -/
def fillPageWithConstant (sat : Sat) (mem : Mem) (memwords : Nat) (value : Word64) : Mem :=
  if sat.fillDirection = .up ∧ sat.fillYieldBytes = 0 then
    forUpTo sat.pageWords (fun i m => Function.update m (memwords + i) value) mem
  else
    forUpTo sat.pageWords (fun step m =>
      Function.update m (memwords + sat.fillPlace step) value) mem

/-- The word of `FillPage` at place `i` of the page at `base`. -/
def fillWord (sat : Sat) (base : Nat) (p : Pattern) (i : Nat) : Word64 :=
  sat.fillData base p.pattern i

theorem fillPlace_lt {sat : Sat} {i : Nat} (hi : i < sat.pageWords) :
    sat.fillPlace i < sat.pageWords := by
  unfold fillPlace
  split <;> omega

theorem fillPlace_fillPlace {sat : Sat} {i : Nat} (hi : i < sat.pageWords) :
    sat.fillPlace (sat.fillPlace i) = i := by
  unfold fillPlace
  split <;> omega

theorem fillPage_eq (sat : Sat) (mem : Mem) (base : Nat) (p : Pattern) :
    sat.fillPage mem base p = writeWords mem base sat.pageWords (sat.fillWord base p) := by
  unfold fillPage
  split
  · next h =>
    have hoff : p.wordOffset = 0 := by
      have := h.2.2
      unfold Pattern.byteOffset at this
      omega
    have hpat : p.patternUnshifted = p.pattern := by
      funext i
      rw [Pattern.patternUnshifted, Pattern.pattern, hoff]
    rw [hpat]
    exact forUpTo_writeWords id (fun _ h => h) (fun _ _ => rfl)
  · exact forUpTo_writeWords _ (fun _ h => fillPlace_lt h) (fun _ h => fillPlace_fillPlace h)

theorem fillPageWithConstant_eq (sat : Sat) (mem : Mem) (base : Nat) (value : Word64) :
    sat.fillPageWithConstant mem base value = writeWords mem base sat.pageWords fun _ => value := by
  unfold fillPageWithConstant
  split
  · exact forUpTo_writeWords (f := fun _ => value) id (fun _ h => h) (fun _ _ => rfl)
  · exact forUpTo_writeWords (f := fun _ => value) _ (fun _ h => fillPlace_lt h)
      (fun _ h => fillPlace_fillPlace h)

/-! ## Clean regions -/

/-- The `n` words at `base` are those `FillPage` writes for `p`. -/
def Clean (sat : Sat) (mem : Mem) (base : Nat) (p : Pattern) (n : Nat) : Prop :=
  ∀ i < n, mem (base + i) = sat.fillWord base p i

/-- The first word of each 64-byte line is its own address. -/
def Tagged (mem : Mem) (base n : Nat) : Prop :=
  ∀ i < n, i % 8 = 0 → mem (base + i) = addrToTag (base + i)

/-- The words of the pattern repeat after 512, the tags follow the address. -/
theorem fillWord_add (sat : Sat) (base : Nat) (p : Pattern) (b i : Nat) :
    sat.fillWord base p (512 * b + i) = sat.fillWord (base + 512 * b) p i := by
  have hmod : (512 * b + i) % 8 = i % 8 := by omega
  have h0 : p.pattern (2 * (512 * b + i)) = p.pattern (2 * i) := by
    rw [show 2 * (512 * b + i) = 2 * i + 1024 * b by ring, Pattern.pattern_add_mul]
  have h1 : p.pattern (2 * (512 * b + i) + 1) = p.pattern (2 * i + 1) := by
    rw [show 2 * (512 * b + i) + 1 = 2 * i + 1 + 1024 * b by ring, Pattern.pattern_add_mul]
  rw [fillWord, fillWord, fillData, fillData, hmod, h0, h1, ← Nat.add_assoc]

variable {sat : Sat} {mem : Mem} {base : Nat} {p : Pattern} {n : Nat}

theorem clean_fillPage (sat : Sat) (mem : Mem) (base : Nat) (p : Pattern) :
    sat.Clean (sat.fillPage mem base p) base p sat.pageWords := by
  intro i hi
  rw [fillPage_eq, writeWords_apply hi]

theorem Clean.congr {mem' : Mem} (h : sat.Clean mem base p n)
    (heq : ∀ i < n, mem' (base + i) = mem (base + i)) : sat.Clean mem' base p n :=
  fun i hi => (heq i hi).trans (h i hi)

/-- A block of 4096 bytes of a clean page is clean on its own. -/
theorem Clean.block (h : sat.Clean mem base p n) {b m : Nat} (hb : 512 * b + m ≤ n) :
    sat.Clean mem (base + 512 * b) p m := by
  intro i hi
  rw [Nat.add_assoc, h _ (by omega), fillWord_add]

theorem Clean.tagged (h : sat.Clean mem base p n) (htag : sat.tagMode = true) :
    Tagged mem base n := by
  intro i hi hmod
  rw [h i hi, fillWord, fillData]
  simp [htag, hmod]

/-! ## A small run -/

/-- A run over pages of 1024 bytes with everything optional switched off. -/
def small (pages freepages : Nat) : Sat where
  pages := pages
  freepages := freepages
  pageLength := 1024
  testmem := 64
  virtualToPhysical addr := addr
  findRegion _ := 0
  tagMode := false
  strict := false
  warm := false
  vector := none
  fillDirection := .up
  fillYieldBytes := 0
  fillPreset := .none
  fillVerifyEvery := 0
  copyVerifyDestination := false
  invertRange := .full
  stopOnError := false
  legacyFinalCheckMode := false
  diskPages := 1
  patternlist := .initializeList 0
  length_eq := ⟨0, rfl⟩
  testmem_dvd := ⟨1, rfl⟩
  testmem_pos := by decide
  findRegion_lt _ := by decide

/-- A run over pages of one block. -/
def oneBlock : Sat := { Sat.small 1 0 with pageLength := 4096, length_eq := ⟨2, rfl⟩ }

end Sat

end StressAppTest
