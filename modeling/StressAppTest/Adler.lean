import Mathlib.Algebra.Ring.Nat
import Mathlib.Logic.Function.Basic
import StressAppTest.Library.Loop

/-!
# The Adler checksum (`adler32memcpy.cc`)

Test memory is read and written in 64-bit words and checksummed in 32-bit units. `datacast`
is the little-endian union of the source. Memory is one map from word addresses to words, so
a store outside its region would be seen there; `unitAt mem base i` is the `i`-th 32-bit unit
from `base` on.

All the copy and checksum loops run over the same four units per pass: two go to the pair
`a1, b1`, the next two to `a2, b2` (`AdlerChecksum.group`). `AdlerChecksum.sum` is that loop
over any source of 32-bit units; the 64-bit accumulators wrap.

* `adlerMemcpyC_eq`, `adlerMemcpyAsm_eq`: on disjoint regions the copying loops copy
  (`copyWords`) and return the checksum of the source, vector code included.
-/

namespace StressAppTest

abbrev Word32 := BitVec 32
abbrev Word64 := BitVec 64

/-- `datacast_t`: the 64-bit word with low half `l` and high half `h`. -/
def datacast (l h : Word32) : Word64 := h ++ l

/-- `data.l32.l` -/
def low (w : Word64) : Word32 := w.extractLsb' 0 32

/-- `data.l32.h` -/
def high (w : Word64) : Word32 := w.extractLsb' 32 32

@[simp] theorem low_datacast (l h : Word32) : low (datacast l h) = l := by
  unfold low datacast
  exact BitVec.extractLsb'_append_eq_right

@[simp] theorem high_datacast (l h : Word32) : high (datacast l h) = h := by
  unfold high datacast
  exact BitVec.extractLsb'_append_eq_left

@[simp] theorem datacast_low_high (w : Word64) : datacast (low w) (high w) = w := by
  apply BitVec.eq_of_getLsbD_eq
  intro i hi
  simp only [datacast, low, high, BitVec.getLsbD_append, BitVec.getLsbD_extractLsb']
  by_cases h : i < 32
  · simp [h]
  · have h' : i - 32 < 32 := by omega
    simp [h, h', show 32 + (i - 32) = i by omega]

/-- Memory: 64-bit words by word address. -/
abbrev Mem := Nat → Word64

/-- The `i`-th 32-bit unit of the memory from word address `base` on. -/
def unitAt (mem : Mem) (base i : Nat) : Word32 :=
  if i % 2 = 0 then low (mem (base + i / 2)) else high (mem (base + i / 2))

/-- `memcpy` of `n` words between disjoint regions. -/
def copyWords (mem : Mem) (dst src n : Nat) : Mem := fun a =>
  if dst ≤ a ∧ a < dst + n then mem (src + (a - dst)) else mem a

/-- The regions of `n` words at `x` and `y` have no word in common. -/
def DisjointWords (x y n : Nat) : Prop := x + n ≤ y ∨ y + n ≤ x

/-- `class AdlerChecksum` -/
structure AdlerChecksum where
  a1 : Word64
  a2 : Word64
  b1 : Word64
  b2 : Word64
  deriving DecidableEq, Repr

namespace AdlerChecksum

/-- The value every checksum loop starts from. -/
def seed : AdlerChecksum := ⟨1, 1, 0, 0⟩

/-- `a1 += w; b1 += a1;` -/
def addFirst (s : AdlerChecksum) (w : Word32) : AdlerChecksum :=
  { s with a1 := s.a1 + w.setWidth 64, b1 := s.b1 + (s.a1 + w.setWidth 64) }

/-- `a2 += w; b2 += a2;` -/
def addSecond (s : AdlerChecksum) (w : Word32) : AdlerChecksum :=
  { s with a2 := s.a2 + w.setWidth 64, b2 := s.b2 + (s.a2 + w.setWidth 64) }

/-- One pass of a checksum loop. -/
def group (s : AdlerChecksum) (w₀ w₁ w₂ w₃ : Word32) : AdlerChecksum :=
  (((s.addFirst w₀).addFirst w₁).addSecond w₂).addSecond w₃

/-- Pass `g` over the units `unit 0, unit 1, …`. -/
def pass (unit : Nat → Word32) (g : Nat) (s : AdlerChecksum) : AdlerChecksum :=
  s.group (unit (4 * g)) (unit (4 * g + 1)) (unit (4 * g + 2)) (unit (4 * g + 3))

/-- `n` passes. -/
def sum (unit : Nat → Word32) (n : Nat) : AdlerChecksum := forUpTo n (pass unit) seed

theorem pass_congr {u v : Nat → Word32} {g : Nat} (h : ∀ i, 4 * g ≤ i → i < 4 * g + 4 → u i = v i)
    (s : AdlerChecksum) : pass u g s = pass v g s := by
  unfold pass
  rw [h _ (by omega) (by omega), h _ (by omega) (by omega), h _ (by omega) (by omega),
    h _ (by omega) (by omega)]

theorem sum_congr {u v : Nat → Word32} {n : Nat} (h : ∀ i < 4 * n, u i = v i) :
    sum u n = sum v n :=
  forUpTo_congr fun g hg s => pass_congr (fun i _ hi => h i (by omega)) s

end AdlerChecksum

/-! ## The C loops -/

/-- The size check of the C loops: `count > (1U) << 19` rejects. -/
def adlerCount (sizeInBytes : Nat) : Option Nat :=
  let count := sizeInBytes / 8
  if count > 2 ^ 19 then none else some count

theorem adlerCount_eq {n : Nat} (hn : 2 * n ≤ 2 ^ 19) : adlerCount (16 * n) = some (2 * n) := by
  have hcount : 16 * n / 8 = 2 * n := by omega
  simp only [adlerCount, hcount]
  rw [if_neg (by omega)]

/-- One pass of the loop of `CalculateAdlerChecksum`: two words. -/
def checksumPass (mem : Mem) (src g : Nat) (sum : AdlerChecksum) : AdlerChecksum :=
  let first := mem (src + 2 * g)
  let second := mem (src + (2 * g + 1))
  sum.group (low first) (high first) (low second) (high second)

/-- `CalculateAdlerChecksum`. A pass reads two words, so an odd count reads one more. -/
def calculateAdlerChecksum (mem : Mem) (data64 sizeInBytes : Nat) : Option AdlerChecksum :=
  (adlerCount sizeInBytes).map fun count =>
    forUpTo ((count + 1) / 2) (checksumPass mem data64) AdlerChecksum.seed

/-- One pass of the loop of `AdlerMemcpyC`. -/
def memcpyPass (dst src g : Nat) (s : Mem × AdlerChecksum) : Mem × AdlerChecksum :=
  let first := s.1 (src + 2 * g)
  let mem := Function.update s.1 (dst + 2 * g) first
  let second := mem (src + (2 * g + 1))
  (Function.update mem (dst + (2 * g + 1)) second,
    s.2.group (low first) (high first) (low second) (high second))

/-- `AdlerMemcpyC` -/
def adlerMemcpyC (mem : Mem) (dstmem64 srcmem64 sizeInBytes : Nat) :
    Option (Mem × AdlerChecksum) :=
  (adlerCount sizeInBytes).map fun count =>
    forUpTo ((count + 1) / 2) (memcpyPass dstmem64 srcmem64) (mem, AdlerChecksum.seed)

/-- `AdlerMemcpyWarmC`. The floating-point work between the two halves of a pass writes no
test memory and no checksum. -/
def adlerMemcpyWarmC (mem : Mem) (dstmem64 srcmem64 sizeInBytes : Nat) :
    Option (Mem × AdlerChecksum) := adlerMemcpyC mem dstmem64 srcmem64 sizeInBytes

theorem checksumPass_eq (mem : Mem) (src g : Nat) (sum : AdlerChecksum) :
    checksumPass mem src g sum = AdlerChecksum.pass (unitAt mem src) g sum := by
  have h0 : (4 * g) / 2 = 2 * g := by omega
  have h1 : (4 * g + 1) / 2 = 2 * g := by omega
  have h2 : (4 * g + 2) / 2 = 2 * g + 1 := by omega
  have h3 : (4 * g + 3) / 2 = 2 * g + 1 := by omega
  simp only [checksumPass, AdlerChecksum.pass, unitAt, h0, h1, h2, h3]
  rw [if_pos (by omega), if_neg (by omega), if_pos (by omega), if_neg (by omega)]

theorem calculateAdlerChecksum_eq {mem : Mem} {data64 sizeInBytes count : Nat}
    (hcount : adlerCount sizeInBytes = some count) :
    calculateAdlerChecksum mem data64 sizeInBytes =
      some (AdlerChecksum.sum (unitAt mem data64) ((count + 1) / 2)) := by
  rw [calculateAdlerChecksum, hcount, Option.map_some]
  congr 1
  exact forUpTo_congr fun g _ s => checksumPass_eq mem data64 g s

/-- Storing the next word extends the copied region. -/
theorem update_copyWords (mem : Mem) (dst src k : Nat) :
    Function.update (copyWords mem dst src k) (dst + k) (mem (src + k)) = copyWords mem dst src (k + 1) := by
  funext a
  by_cases ha : a = dst + k
  · subst ha
    rw [Function.update_self, copyWords, if_pos (by omega), Nat.add_sub_cancel_left]
  · rw [Function.update_of_ne ha]
    simp only [copyWords]
    by_cases h : dst ≤ a ∧ a < dst + k
    · rw [if_pos h, if_pos (by omega)]
    · rw [if_neg h, if_neg (by omega)]

/-- One pass extends it by two words. -/
theorem copyWords_pass {mem : Mem} {dst src n g : Nat} (hd : DisjointWords dst src (2 * n)) (hg : g < n)
    (sum : AdlerChecksum) :
    memcpyPass dst src g (copyWords mem dst src (2 * g), sum) =
      (copyWords mem dst src (2 * (g + 1)), AdlerChecksum.pass (unitAt mem src) g sum) := by
  unfold DisjointWords at hd
  -- the loads see the source as it was
  have hread : ∀ k, k < 2 * n → copyWords mem dst src (2 * g) (src + k) = mem (src + k) := by
    intro k hk
    rw [copyWords, if_neg (by omega)]
  have hread' : Function.update (copyWords mem dst src (2 * g)) (dst + 2 * g) (mem (src + 2 * g))
      (src + (2 * g + 1)) = mem (src + (2 * g + 1)) := by
    rw [Function.update_of_ne (by omega), hread _ (by omega)]
  simp only [memcpyPass, hread (2 * g) (by omega), hread']
  refine Prod.ext ?_ (checksumPass_eq mem src g sum)
  dsimp only
  rw [update_copyWords, update_copyWords]
  rfl

/-- `n` passes on disjoint regions copy `2 n` words and sum up the source. -/
theorem forUpTo_memcpyPass (mem : Mem) {dst src n : Nat} (hd : DisjointWords dst src (2 * n)) :
    forUpTo n (memcpyPass dst src) (mem, AdlerChecksum.seed) =
      (copyWords mem dst src (2 * n), AdlerChecksum.sum (unitAt mem src) n) := by
  refine forUpTo_inv (fun g (s : Mem × AdlerChecksum) =>
    s = (copyWords mem dst src (2 * g), AdlerChecksum.sum (unitAt mem src) g)) ?_ ?_
  · refine Prod.ext ?_ rfl
    funext a
    simp only [copyWords]
    rw [if_neg (by omega)]
  · rintro g hg s rfl
    exact copyWords_pass hd hg _

theorem adlerMemcpyC_eq {mem : Mem} {dst src sizeInBytes n : Nat}
    (hcount : adlerCount sizeInBytes = some (2 * n)) (hd : DisjointWords dst src (2 * n)) :
    adlerMemcpyC mem dst src sizeInBytes =
      some (copyWords mem dst src (2 * n), AdlerChecksum.sum (unitAt mem src) n) := by
  have hn : (2 * n + 1) / 2 = n := by omega
  rw [adlerMemcpyC, hcount, Option.map_some, hn, forUpTo_memcpyPass mem hd]

/-! ## The vector code -/

/-- A register of two 64-bit lanes. -/
structure Lanes where
  fst : Word64
  snd : Word64

/-- `paddq` / `add v.2d` -/
def Lanes.add (x y : Lanes) : Lanes := ⟨x.fst + y.fst, x.snd + y.snd⟩

/-- The accumulators: `xmm6` and `xmm7`, or `v0` and `v1`. -/
structure VectorSum where
  a : Lanes
  b : Lanes

/-- Sixteen bytes of source: their even 32-bit words are added to the first accumulator and
that to the second, then the same for the odd words. x86 masks two loads that are four bytes
apart, NEON transposes with zero; the lanes are the same. -/
def VectorSum.add16 (s : VectorSum) (w₀ w₁ w₂ w₃ : Word32) : VectorSum :=
  let a := s.a.add ⟨w₀.setWidth 64, w₂.setWidth 64⟩
  let b := s.b.add a
  let a' := a.add ⟨w₁.setWidth 64, w₃.setWidth 64⟩
  ⟨a', b.add a'⟩

/-- The terms stored to `checksum_arr`. -/
def VectorSum.checksum (s : VectorSum) : AdlerChecksum := ⟨s.a.fst, s.a.snd, s.b.fst, s.b.snd⟩

/-- The instruction sets with vector code, and the bytes one pass of their main loop moves. -/
inductive Isa
  | x86
  | neon
  deriving DecidableEq, Repr

/-- Sixteen bytes loaded, stored and summed. -/
def copy16 (dst src g : Nat) (s : Mem × VectorSum) : Mem × VectorSum :=
  let first := s.1 (src + 2 * g)
  let second := s.1 (src + (2 * g + 1))
  (Function.update (Function.update s.1 (dst + 2 * g) first) (dst + (2 * g + 1)) second,
    s.2.add16 (low first) (high first) (low second) (high second))

/-- The number of 16-byte steps: the 48-byte units and the remaining words on x86; whole
64-byte blocks only on NEON. -/
def Isa.steps (isa : Isa) (sizeInBytes : Nat) : Nat :=
  match isa with
  | .x86 => 3 * (sizeInBytes / 48) + sizeInBytes % 48 / 4 / 4
  | .neon => 4 * (sizeInBytes / 64)

/-- `AdlerMemcpyAsm`. On x86 a size without one whole unit leaves the loop before the
accumulators are set. A main loop pass loads its 48 or 64 bytes before it stores them; between
disjoint regions that is the same as 16 bytes at a time. -/
def adlerMemcpyAsm (isa : Isa) (mem : Mem) (dstmem64 srcmem64 sizeInBytes : Nat) :
    Option (Mem × AdlerChecksum) :=
  if sizeInBytes / 2 ^ 19 > 0 then none
  else if isa = .x86 ∧ sizeInBytes / 48 = 0 then none
  else
    let s := forUpTo (isa.steps sizeInBytes) (copy16 dstmem64 srcmem64) (mem, ⟨⟨1, 1⟩, ⟨0, 0⟩⟩)
    some (s.1, s.2.checksum)

/-- The vector loop computes the C loop. -/
theorem forUpTo_copy16 (mem : Mem) {dst src n : Nat} (hd : DisjointWords dst src (2 * n)) :
    (forUpTo n (copy16 dst src) (mem, ⟨⟨1, 1⟩, ⟨0, 0⟩⟩)).1 = copyWords mem dst src (2 * n) ∧
    (forUpTo n (copy16 dst src) (mem, ⟨⟨1, 1⟩, ⟨0, 0⟩⟩)).2.checksum =
      AdlerChecksum.sum (unitAt mem src) n := by
  have hsim : ∀ k ≤ n, forUpTo k (memcpyPass dst src) (mem, AdlerChecksum.seed) =
      ((forUpTo k (copy16 dst src) (mem, ⟨⟨1, 1⟩, ⟨0, 0⟩⟩)).1,
        (forUpTo k (copy16 dst src) (mem, ⟨⟨1, 1⟩, ⟨0, 0⟩⟩)).2.checksum) := by
    intro k hk
    induction k with
    | zero => rfl
    | succ k ih =>
        unfold DisjointWords at hd
        simp only [forUpTo, ih (by omega), memcpyPass, copy16]
        -- the second load does not see the first store
        rw [Function.update_of_ne (by omega)]
        rfl
  have hall := (forUpTo_memcpyPass mem hd).symm.trans (hsim n (Nat.le_refl n))
  exact ⟨(congrArg Prod.fst hall).symm, (congrArg Prod.snd hall).symm⟩

theorem adlerMemcpyAsm_eq {isa : Isa} {mem : Mem} {dst src n : Nat} (hpos : 0 < n)
    (hsize : 64 * n < 2 ^ 19) (hd : DisjointWords dst src (8 * n)) :
    adlerMemcpyAsm isa mem dst src (64 * n) =
      some (copyWords mem dst src (8 * n), AdlerChecksum.sum (unitAt mem src) (4 * n)) := by
  have hsteps : isa.steps (64 * n) = 4 * n := by
    cases isa <;> simp only [Isa.steps] <;> omega
  have h8 : 2 * (4 * n) = 8 * n := by omega
  obtain ⟨hmem, hsum⟩ := forUpTo_copy16 mem (n := 4 * n) (h8 ▸ hd)
  rw [adlerMemcpyAsm, if_neg (by omega), if_neg (by omega)]
  simp only [hsteps, hmem, hsum, h8]

/-- `OsLayer::AdlerMemcpyWarm`: vector code where the CPU has it. -/
def osAdlerMemcpyWarm (vector : Option Isa) (mem : Mem) (dstmem srcmem sizeInBytes : Nat) :
    Option (Mem × AdlerChecksum) :=
  match vector with
  | some isa => adlerMemcpyAsm isa mem dstmem srcmem sizeInBytes
  | none => adlerMemcpyWarmC mem dstmem srcmem sizeInBytes

end StressAppTest
