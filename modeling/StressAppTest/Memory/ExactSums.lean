import Mathlib.Data.Nat.ModEq
import StressAppTest.Library.RunningSum
import StressAppTest.Memory.AnyContent

/-!
# The checksum without a bound

The accumulators of the checksum loops are 64 bits wide. `ExactSum` runs the same loop on
natural numbers; the checksum is its residue (`wrap_sum`), and the residue is the sum itself as
long as a stream is not longer than 92681 units (`toExact_sum`).

The C loops compare a number of 8-byte words with the limit that `adler32memcpy.cc` states in
bytes, so they accept up to 4 MiB.

* `adler_exact_iff`: for which sizes the loops keep the stated limit, and for which of them
  they return the exact sums of every content.
-/

namespace StressAppTest

open RunningSum

/-! ## Exact sums -/

/-- The four terms of `AdlerChecksum`, unreduced. -/
structure ExactSum where
  a1 : Nat
  a2 : Nat
  b1 : Nat
  b2 : Nat
  deriving DecidableEq, Repr

namespace ExactSum

def seed : ExactSum := ⟨1, 1, 0, 0⟩

/-- `a1 += w; b1 += a1;` -/
def addFirst (s : ExactSum) (w : Word32) : ExactSum :=
  { s with a1 := s.a1 + w.toNat, b1 := s.b1 + (s.a1 + w.toNat) }

/-- `a2 += w; b2 += a2;` -/
def addSecond (s : ExactSum) (w : Word32) : ExactSum :=
  { s with a2 := s.a2 + w.toNat, b2 := s.b2 + (s.a2 + w.toNat) }

/-- One pass of a checksum loop. -/
def pass (unit : Nat → Word32) (g : Nat) (s : ExactSum) : ExactSum :=
  (((s.addFirst (unit (4 * g))).addFirst (unit (4 * g + 1))).addSecond (unit (4 * g + 2))).addSecond
    (unit (4 * g + 3))

/-- `n` passes. -/
def sum (unit : Nat → Word32) (n : Nat) : ExactSum := forUpTo n (pass unit) seed

/-- The accumulators of the source hold residues. -/
def wrap (s : ExactSum) : AdlerChecksum :=
  ⟨BitVec.ofNat 64 s.a1, BitVec.ofNat 64 s.a2, BitVec.ofNat 64 s.b1, BitVec.ofNat 64 s.b2⟩

end ExactSum

/-- The values of the accumulators. -/
def AdlerChecksum.toExact (s : AdlerChecksum) : ExactSum :=
  ⟨s.a1.toNat, s.a2.toNat, s.b1.toNat, s.b2.toNat⟩

/-- The units of `a1, b1`: two of every four. -/
def firstStream (unit : Nat → Word32) (j : Nat) : Nat := (unit (4 * (j / 2) + j % 2)).toNat

/-- The units of `a2, b2`. -/
def secondStream (unit : Nat → Word32) (j : Nat) : Nat := (unit (4 * (j / 2) + 2 + j % 2)).toNat

theorem firstStream_le (unit : Nat → Word32) (j : Nat) : firstStream unit j ≤ 2 ^ 32 - 1 :=
  Nat.le_sub_one_of_lt (unit _).isLt

theorem secondStream_le (unit : Nat → Word32) (j : Nat) : secondStream unit j ≤ 2 ^ 32 - 1 :=
  Nat.le_sub_one_of_lt (unit _).isLt

namespace ExactSum

theorem addFirst_wrap (s : ExactSum) (w : Word32) : s.wrap.addFirst w = (s.addFirst w).wrap := by
  have hw : w.setWidth 64 = BitVec.ofNat 64 w.toNat := by
    apply BitVec.eq_of_toNat_eq
    simp
  simp only [wrap, AdlerChecksum.addFirst, addFirst, hw, BitVec.ofNat_add]

theorem addSecond_wrap (s : ExactSum) (w : Word32) : s.wrap.addSecond w = (s.addSecond w).wrap := by
  have hw : w.setWidth 64 = BitVec.ofNat 64 w.toNat := by
    apply BitVec.eq_of_toNat_eq
    simp
  simp only [wrap, AdlerChecksum.addSecond, addSecond, hw, BitVec.ofNat_add]

/-- The checksum is the residue of the exact sums. -/
theorem wrap_sum (unit : Nat → Word32) (n : Nat) : (sum unit n).wrap = AdlerChecksum.sum unit n := by
  induction n with
  | zero => rfl
  | succ n ih =>
      change (pass unit n (sum unit n)).wrap = AdlerChecksum.pass unit n (AdlerChecksum.sum unit n)
      rw [← ih]
      simp only [AdlerChecksum.pass, AdlerChecksum.group, pass, addFirst_wrap, addSecond_wrap]

/-- The exact terms are running sums of the two streams. -/
theorem sum_eq (unit : Nat → Word32) (n : Nat) :
    sum unit n = ⟨plain 1 (firstStream unit) (2 * n), plain 1 (secondStream unit) (2 * n),
      weighted 1 (firstStream unit) (2 * n), weighted 1 (secondStream unit) (2 * n)⟩ := by
  induction n with
  | zero => simp [sum, forUpTo, seed]
  | succ n ih =>
      have h0 : firstStream unit (2 * n) = (unit (4 * n)).toNat := by
        rw [firstStream, show 4 * (2 * n / 2) + 2 * n % 2 = 4 * n by omega]
      have h1 : firstStream unit (2 * n + 1) = (unit (4 * n + 1)).toNat := by
        rw [firstStream, show 4 * ((2 * n + 1) / 2) + (2 * n + 1) % 2 = 4 * n + 1 by omega]
      have h2 : secondStream unit (2 * n) = (unit (4 * n + 2)).toNat := by
        rw [secondStream, show 4 * (2 * n / 2) + 2 + 2 * n % 2 = 4 * n + 2 by omega]
      have h3 : secondStream unit (2 * n + 1) = (unit (4 * n + 3)).toNat := by
        rw [secondStream, show 4 * ((2 * n + 1) / 2) + 2 + (2 * n + 1) % 2 = 4 * n + 3 by omega]
      change pass unit n (sum unit n) = _
      rw [ih, show 2 * (n + 1) = 2 * n + 1 + 1 by ring]
      simp only [pass, addFirst, addSecond, plain_succ, weighted_succ, h0, h1, h2, h3]

/-- What one stream can grow to in 64 bits. -/
theorem stream_lt {u : Nat → Nat} (hu : ∀ j, u j ≤ 2 ^ 32 - 1) {m : Nat} (hm : m ≤ 92681) :
    plain 1 u m < 2 ^ 64 ∧ weighted 1 u m < 2 ^ 64 := by
  have hplain := plain_le (c := 1) (n := m) hu
  have hweighted := weighted_le (c := 1) hu m
  have hsq : m * (m + 1) ≤ 92681 * (92681 + 1) := Nat.mul_le_mul hm (by omega)
  constructor <;> omega

end ExactSum

/-- Streams of up to 92681 units do not wrap. -/
theorem AdlerChecksum.toExact_sum (unit : Nat → Word32) {n : Nat} (hn : 2 * n ≤ 92681) :
    (AdlerChecksum.sum unit n).toExact = ExactSum.sum unit n := by
  obtain ⟨ha1, hb1⟩ := ExactSum.stream_lt (firstStream_le unit) hn
  obtain ⟨ha2, hb2⟩ := ExactSum.stream_lt (secondStream_le unit) hn
  rw [← ExactSum.wrap_sum, ExactSum.sum_eq]
  simp only [ExactSum.wrap, AdlerChecksum.toExact, BitVec.toNat_ofNat, Nat.mod_eq_of_lt ha1,
    Nat.mod_eq_of_lt ha2, Nat.mod_eq_of_lt hb1, Nat.mod_eq_of_lt hb2]

/-- Longer ones do on ones only: the accumulator cannot hold the exact `b1`. -/
theorem AdlerChecksum.toExact_sum_ne {unit : Nat → Word32} (hunit : ∀ i, unit i = BitVec.allOnes 32)
    {n : Nat} (hn : 92681 < 2 * n) : (AdlerChecksum.sum unit n).toExact ≠ ExactSum.sum unit n := by
  have hstream : firstStream unit = fun _ => 2 ^ 32 - 1 := by
    funext j
    rw [firstStream, hunit, BitVec.toNat_allOnes]
  have hlarge : 2 ^ 64 ≤ weighted 1 (fun _ => 2 ^ 32 - 1) (2 * n) := by
    have hsq : 92682 * (92682 + 1) ≤ 2 * n * (2 * n + 1) := Nat.mul_le_mul (by omega) (by omega)
    have hweighted := weighted_const 1 (2 ^ 32 - 1) (2 * n)
    have hbig : 2 * 2 ^ 64 ≤ (2 ^ 32 - 1) * (92682 * (92682 + 1)) := by norm_num
    have hmul := hbig.trans (Nat.mul_le_mul_left (2 ^ 32 - 1) hsq)
    have htwice : 2 * 2 ^ 64 ≤ 2 * weighted 1 (fun _ => 2 ^ 32 - 1) (2 * n) :=
      calc 2 * 2 ^ 64 ≤ (2 ^ 32 - 1) * (2 * n * (2 * n + 1)) := hmul
        _ ≤ 2 * (2 * n * 1) + (2 ^ 32 - 1) * (2 * n * (2 * n + 1)) := Nat.le_add_left _ _
        _ = 2 * weighted 1 (fun _ => 2 ^ 32 - 1) (2 * n) := hweighted.symm
    exact Nat.le_of_mul_le_mul_left htwice (Nat.succ_pos 1)
  intro heq
  have hb1 := congrArg ExactSum.b1 heq
  rw [ExactSum.sum_eq, hstream] at hb1
  have hlt : (AdlerChecksum.sum unit n).toExact.b1 < 2 ^ 64 := (AdlerChecksum.sum unit n).b1.isLt
  rw [hb1] at hlt
  exact absurd hlt (Nat.not_lt.mpr hlarge)

/-! ## The C loops -/

/-- The checksum loops of the C code that share the size check. -/
inductive AdlerLoop
  | calculate
  | memcpyC
  | memcpyWarmC
  | addrMemcpyC
  deriving DecidableEq, Repr

namespace AdlerLoop

/-- The checksum a loop sets; `none` where it returns false. -/
def checksum (f : AdlerLoop) (mem : Mem) (dst src sizeInBytes : Nat) (p : Pattern) :
    Option AdlerChecksum :=
  match f with
  | .calculate => calculateAdlerChecksum mem src sizeInBytes
  | .memcpyC => (adlerMemcpyC mem dst src sizeInBytes).map Prod.snd
  | .memcpyWarmC => (adlerMemcpyWarmC mem dst src sizeInBytes).map Prod.snd
  | .addrMemcpyC => (Sat.adlerAddrMemcpyC mem dst src sizeInBytes p).map Sat.AddrCrc.sum

/-- The units a loop adds up. -/
def unit (f : AdlerLoop) (mem : Mem) (src : Nat) (p : Pattern) : Nat → Word32 :=
  match f with
  | .addrMemcpyC => Sat.crcUnit mem src p
  | _ => unitAt mem src

/-- The loop returns true for this size. -/
def Accepts (f : AdlerLoop) (sizeInBytes : Nat) : Prop :=
  ∀ mem dst src p, (f.checksum mem dst src sizeInBytes p).isSome

/-- Whenever the loop returns true, it returns the exact sums. -/
def Exact (f : AdlerLoop) (sizeInBytes : Nat) : Prop :=
  ∀ mem dst src p checksum, DisjointWords dst src (sizeInBytes / 8) →
    f.checksum mem dst src sizeInBytes p = some checksum →
      checksum.toExact = ExactSum.sum (f.unit mem src p) (sizeInBytes / 16)

variable {f : AdlerLoop}

theorem accepts_iff {n : Nat} : f.Accepts (16 * n) ↔ 16 * n ≤ 2 ^ 22 := by
  have hcount : (adlerCount (16 * n)).isSome ↔ 16 * n ≤ 2 ^ 22 := by
    unfold adlerCount
    dsimp only
    split
    · simp
      omega
    · simp
      omega
  constructor
  · intro h
    rw [← hcount]
    have := h (fun _ => 0) 0 0 Pattern.ones
    cases f <;> simpa [checksum, calculateAdlerChecksum, adlerMemcpyC, adlerMemcpyWarmC,
      Sat.adlerAddrMemcpyC] using this
  · intro h mem dst src p
    rw [← hcount] at h
    cases f <;> simpa [checksum, calculateAdlerChecksum, adlerMemcpyC, adlerMemcpyWarmC,
      Sat.adlerAddrMemcpyC] using h

/-- Every loop adds up its units in the same way. -/
theorem checksum_eq {mem : Mem} {dst src n : Nat} {p : Pattern} (hd : DisjointWords dst src (2 * n))
    (hn : 16 * n ≤ 2 ^ 22) :
    f.checksum mem dst src (16 * n) p = some (AdlerChecksum.sum (f.unit mem src p) n) := by
  have hcount := adlerCount_eq (by omega : 2 * n ≤ 2 ^ 19)
  cases f with
  | calculate =>
      simp only [checksum, unit, calculateAdlerChecksum_eq hcount, show (2 * n + 1) / 2 = n by omega]
  | memcpyC => simp only [checksum, unit, adlerMemcpyC_eq hcount hd, Option.map_some]
  | memcpyWarmC => simp only [checksum, unit, adlerMemcpyWarmC, adlerMemcpyC_eq hcount hd, Option.map_some]
  | addrMemcpyC =>
      simp only [checksum, unit, Sat.adlerAddrMemcpyC_eq hd (by omega : 2 * n ≤ 2 ^ 19), Option.map_some]

/-- Memory of ones, whatever the loop takes from the pattern. -/
theorem unit_ones (src i : Nat) :
    f.unit (fun _ => BitVec.allOnes 64) src Pattern.ones i = BitVec.allOnes 32 := by
  have hunit : unitAt (fun _ => BitVec.allOnes 64) src i = BitVec.allOnes 32 := by
    have hlow : low (BitVec.allOnes 64) = BitVec.allOnes 32 := by decide
    have hhigh : high (BitVec.allOnes 64) = BitVec.allOnes 32 := by decide
    rw [unitAt, hlow, hhigh, ite_self]
  cases f with
  | addrMemcpyC =>
      change Sat.crcUnit _ _ _ _ = _
      rw [Sat.crcUnit, Pattern.ones_pattern, hunit, ite_self]
  | calculate => exact hunit
  | memcpyC => exact hunit
  | memcpyWarmC => exact hunit

theorem exact_iff {n : Nat} : f.Exact (16 * n) ↔ 16 * n ≤ 741440 ∨ 2 ^ 22 < 16 * n := by
  have hdiv : 16 * n / 16 = n := by omega
  have hdiv8 : 16 * n / 8 = 2 * n := by omega
  constructor
  · intro h
    by_contra hsize
    -- ones everywhere, copied to the region right after
    have hd : DisjointWords (2 * n) 0 (2 * n) := Or.inr (by omega)
    have hone := h (fun _ => BitVec.allOnes 64) (2 * n) 0 Pattern.ones _ (hdiv8 ▸ hd)
      (checksum_eq hd (by omega))
    rw [hdiv] at hone
    exact AdlerChecksum.toExact_sum_ne (fun i => unit_ones 0 i) (by omega) hone
  · intro hsize mem dst src p checksum hd hsome
    rw [hdiv8] at hd
    rw [hdiv]
    have haccepts : 16 * n ≤ 2 ^ 22 := by
      by_contra hlarge
      have hcount : adlerCount (16 * n) = none := by
        simp only [adlerCount]
        rw [if_pos (by omega)]
      cases f <;> simp [AdlerLoop.checksum, calculateAdlerChecksum, adlerMemcpyC, adlerMemcpyWarmC,
        Sat.adlerAddrMemcpyC, hcount] at hsome
    rw [checksum_eq hd haccepts, Option.some.injEq] at hsome
    rw [← hsome]
    exact AdlerChecksum.toExact_sum _ (by omega)

/-- **The limit of the checksum loops.** The accepted sizes are those below `2 ^ 19` bytes, and
the sums of accepted sizes exact, outside `2 ^ 19 .. 2 ^ 22` only; between these two the loops
accept too much, and from 741456 bytes on they also wrap. -/
theorem adler_exact_iff (f : AdlerLoop) (n : Nat) :
    (((f.Accepts (16 * n) ↔ 16 * n < 2 ^ 19) ∧ f.Exact (16 * n)) ↔
      16 * n < 2 ^ 19 ∨ 2 ^ 22 < 16 * n) ∧
    (f.Exact (16 * n) ↔ 16 * n ≤ 741440 ∨ 2 ^ 22 < 16 * n) := by
  refine ⟨?_, exact_iff⟩
  rw [accepts_iff, exact_iff]
  omega

/-- One MiB of ones is accepted, and its sums are not the exact ones. -/
theorem calculate_wraps_at_megabyte :
    ∃ checksum, calculateAdlerChecksum (fun _ => BitVec.allOnes 64) 0 1048576 = some checksum ∧
      checksum.toExact ≠ ExactSum.sum (unitAt (fun _ => BitVec.allOnes 64) 0) 65536 ∧
      ¬ 1048576 < 2 ^ 19 := by
  refine ⟨AdlerChecksum.sum (unitAt (fun _ => BitVec.allOnes 64) 0) 65536, ?_, ?_, by norm_num⟩
  · have hcount : adlerCount 1048576 = some 131072 := by decide
    rw [calculateAdlerChecksum_eq hcount]
  · refine AdlerChecksum.toExact_sum_ne (fun i => ?_) (by norm_num)
    exact unit_ones (f := .calculate) 0 i

end AdlerLoop

end StressAppTest
