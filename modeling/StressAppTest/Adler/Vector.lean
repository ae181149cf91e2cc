import StressAppTest.Adler
import StressAppTest.Library.Asm

/-!
# Registers and memory of the vector code (`AdlerMemcpyAsm` of `adler32memcpy.cc`)

What the assembly of both instruction sets shares: sixteen bytes of memory in a register, and two
accumulators whose lanes are the terms of the checksum.

* `load128_group`, `store128_group`: sixteen bytes are one group of four 32-bit words.
* `checksumOf_addGroup`: two additions to each accumulator are one pass of the C loop.
-/

namespace StressAppTest

open Asm

/-! ## Memory in bytes -/

/-- The byte at a byte address. -/
def byteAt (mem : Mem) (a : Nat) : BitVec 8 := (mem (a / 8)).extractLsb' (8 * (a % 8)) 8

/-- Four bytes, little endian. -/
def load32 (mem : Mem) (a : Nat) : Word32 :=
  byteAt mem (a + 3) ++ (byteAt mem (a + 2) ++ (byteAt mem (a + 1) ++ byteAt mem a))

/-- Sixteen bytes into a register. -/
def load128 (mem : Mem) (a : Nat) : Vec :=
  ⟨load32 mem a, load32 mem (a + 4), load32 mem (a + 8), load32 mem (a + 12)⟩

/-- A register to sixteen bytes at a multiple of 8. -/
def store128 (mem : Mem) (a : Nat) (x : Vec) : Mem :=
  Function.update (Function.update mem (a / 8) x.lane0) (a / 8 + 1) x.lane1

theorem extract_bytes (w : Word64) (k : Nat) :
    w.extractLsb' (k + 24) 8 ++ (w.extractLsb' (k + 16) 8 ++
      (w.extractLsb' (k + 8) 8 ++ w.extractLsb' k 8)) = w.extractLsb' k 32 := by
  rw [BitVec.extractLsb'_append_extractLsb'_eq_extractLsb' (by omega),
    BitVec.extractLsb'_append_extractLsb'_eq_extractLsb' (by omega),
    BitVec.extractLsb'_append_extractLsb'_eq_extractLsb' (by omega)]

theorem byteAt_unit (mem : Mem) (base i : Nat) {k : Nat} (hk : k < 4) :
    byteAt mem (8 * base + 4 * i + k) = (mem (base + i / 2)).extractLsb' (32 * (i % 2) + 8 * k) 8 := by
  rw [byteAt, show (8 * base + 4 * i + k) / 8 = base + i / 2 by omega,
    show 8 * ((8 * base + 4 * i + k) % 8) = 32 * (i % 2) + 8 * k by omega]

/-- A load at a multiple of 4 is one unit. -/
theorem load32_eq (mem : Mem) (base i : Nat) : load32 mem (8 * base + 4 * i) = unitAt mem base i := by
  have hload : load32 mem (8 * base + 4 * i) = (mem (base + i / 2)).extractLsb' (32 * (i % 2)) 32 := by
    rw [load32, byteAt_unit mem base i (by omega : 3 < 4), byteAt_unit mem base i (by omega : 2 < 4),
      byteAt_unit mem base i (by omega : 1 < 4), ← Nat.add_zero (8 * base + 4 * i),
      byteAt_unit mem base i (by omega : 0 < 4)]
    exact extract_bytes _ _
  rw [hload, unitAt]
  rcases Nat.mod_two_eq_zero_or_one i with h | h
  · rw [h, if_pos rfl]
    rfl
  · rw [h, if_neg Nat.one_ne_zero]
    rfl

theorem load128_eq (mem : Mem) (base i : Nat) :
    load128 mem (8 * base + 4 * i) =
      ⟨unitAt mem base i, unitAt mem base (i + 1), unitAt mem base (i + 2), unitAt mem base (i + 3)⟩ := by
  simp only [load128, ← load32_eq, Nat.mul_add, Nat.add_assoc]

/-! ## Groups of four words -/

/-- The four words of group `g`. -/
def groupVec (mem : Mem) (src g : Nat) : Vec :=
  ⟨unitAt mem src (4 * g), unitAt mem src (4 * g + 1), unitAt mem src (4 * g + 2), unitAt mem src (4 * g + 3)⟩

theorem load128_group (mem : Mem) (src g : Nat) : load128 mem (8 * src + 16 * g) = groupVec mem src g := by
  rw [show 16 * g = 4 * (4 * g) by omega, load128_eq]
  rfl

/-- Storing the next group extends the copied region. -/
theorem store128_group (mem : Mem) (dst src g : Nat) :
    store128 (copyWords mem dst src (2 * g)) (8 * dst + 16 * g) (groupVec mem src g) =
      copyWords mem dst src (2 * (g + 1)) := by
  have hlane0 : (groupVec mem src g).lane0 = mem (src + 2 * g) := by
    simp only [groupVec, Vec.lane0, unitAt]
    rw [if_neg (by omega), if_pos (by omega), show (4 * g + 1) / 2 = 2 * g by omega,
      show 4 * g / 2 = 2 * g by omega]
    exact datacast_low_high _
  have hlane1 : (groupVec mem src g).lane1 = mem (src + (2 * g + 1)) := by
    simp only [groupVec, Vec.lane1, unitAt]
    rw [if_neg (by omega), if_pos (by omega), show (4 * g + 3) / 2 = 2 * g + 1 by omega,
      show (4 * g + 2) / 2 = 2 * g + 1 by omega]
    exact datacast_low_high _
  rw [store128, show (8 * dst + 16 * g) / 8 = dst + 2 * g by omega, hlane0, hlane1, update_copyWords,
    Nat.add_assoc, update_copyWords]
  rfl

/-- Between disjoint regions the units of the source stay as they were. -/
theorem unitAt_copyWords {mem : Mem} {dst src n k i : Nat} (hd : DisjointWords dst src (2 * n))
    (hk : k ≤ 2 * n) (hi : i < 4 * n) : unitAt (copyWords mem dst src k) src i = unitAt mem src i := by
  unfold DisjointWords at hd
  have hread : copyWords mem dst src k (src + i / 2) = mem (src + i / 2) := if_neg (by omega)
  rw [unitAt, unitAt, hread]

theorem groupVec_copyWords {mem : Mem} {dst src n k g : Nat} (hd : DisjointWords dst src (2 * n))
    (hk : k ≤ 2 * n) (hg : g < n) : groupVec (copyWords mem dst src k) src g = groupVec mem src g := by
  simp only [groupVec]
  rw [unitAt_copyWords hd hk (by omega), unitAt_copyWords hd hk (by omega),
    unitAt_copyWords hd hk (by omega), unitAt_copyWords hd hk (by omega)]

/-- Two vectors are added to the first accumulator, which is added to the second each time. -/
def addGroup (acc : Vec × Vec) (x y : Vec) : Vec × Vec :=
  let a := acc.1.add64 x
  let b := acc.2.add64 a
  (a.add64 y, b.add64 (a.add64 y))

/-- The terms in two accumulators. -/
def checksumOf (acc : Vec × Vec) : AdlerChecksum :=
  ⟨acc.1.lane0, acc.1.lane1, acc.2.lane0, acc.2.lane1⟩

/-- With the even words of a group in the lanes of `x` and the odd words in those of `y`. -/
theorem checksumOf_addGroup {acc : Vec × Vec} {x y : Vec} {u : Nat → Word32} {g : Nat}
    (hx0 : x.lane0 = (u (4 * g)).setWidth 64) (hx1 : x.lane1 = (u (4 * g + 2)).setWidth 64)
    (hy0 : y.lane0 = (u (4 * g + 1)).setWidth 64) (hy1 : y.lane1 = (u (4 * g + 3)).setWidth 64) :
    checksumOf (addGroup acc x y) = AdlerChecksum.pass u g (checksumOf acc) := by
  simp only [checksumOf, addGroup, Vec.lane0_add64, Vec.lane1_add64, hx0, hx1, hy0, hy1]
  rfl

end StressAppTest
