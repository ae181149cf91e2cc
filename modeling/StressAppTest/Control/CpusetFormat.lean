import Mathlib.Combinatorics.Colex
import Mathlib.Data.BitVec
import Mathlib.Data.Nat.Digits.Defs
import StressAppTest.Library.Loop
import StressAppTest.Library.Text

/-!
# CPU sets as text (`cpuset_format`, `sattypes.h`)

A CPU set is written as a hexadecimal number with CPU 0 in the lowest bit. The digits are appended
from the lowest on; `last_non_zero_size` is the length up to the last digit that is not zero, and what
is behind it is erased before the text is reversed.

`Numeral` is what the text and that length know about the digits written so far, and `Written` adds
the digit that is being collected. One digit more keeps them (`Numeral.push`), one CPU more as well
(`Written.step`). The counters are `int`s, far above any `CPU_SETSIZE`.
-/

namespace StressAppTest.Control

open Finset Text

/-! ## Model -/

/-- `char(digit <= 9 ? '0' + digit : 'A' + digit - 10)` -/
def hexDigit (digit : Nat) : Char :=
  Char.ofNat (if digit ≤ 9 then '0'.toNat + digit else 'A'.toNat + digit - 10)

structure Formatting where
  format : List Char
  digit : Nat
  lastNonZeroSize : Nat

/-- The body of the loop over the CPUs. -/
def formatBody {n : Nat} (cpuset : BitVec n) (i : Nat) (s : Formatting) : Formatting :=
  let digit := if cpuset.getLsbD i then s.digit ||| 1 <<< (i &&& 3) else s.digit
  if i &&& 3 = 3 then
    let format := s.format ++ [hexDigit digit]
    if digit ≠ 0 then ⟨format, 0, format.length⟩ else ⟨format, digit, s.lastNonZeroSize⟩
  else ⟨s.format, digit, s.lastNonZeroSize⟩

/-- `string::erase(pos)`, which throws `out_of_range` for a position behind the end. -/
def erase (pos : Nat) (s : List Char) : Option (List Char) :=
  if pos ≤ s.length then some (s.take pos) else none

theorem ofDigits_push (ds : List Nat) (d : Nat) :
    Nat.ofDigits 16 (ds ++ [d]) = Nat.ofDigits 16 ds + 2 ^ (4 * ds.length) * d := by
  rw [Nat.ofDigits_append, Nat.ofDigits_singleton, pow_mul]
  norm_num

/-- The digits `ds`, lowest first, are in the text, and `size` ends at the last that is not zero. -/
structure Numeral (ds : List Nat) (format : List Char) (size : Nat) : Prop where
  text : format = ds.map hexDigit
  small : ∀ d ∈ ds, d < 16
  zeros : ∀ d ∈ ds.drop size, d = 0
  last : size = 1 ∨ ∃ d, d ≠ 0 ∧ ds[size - 1]? = some d
  pos : 1 ≤ size

namespace Numeral

variable {ds : List Nat} {format : List Char} {size : Nat}

theorem length_eq (h : Numeral ds format size) : format.length = ds.length := by
  rw [h.text, List.length_map]

/-- One digit more. -/
theorem push (h : Numeral ds format size) {d : Nat} (hd : d < 16) :
    Numeral (ds ++ [d]) (format ++ [hexDigit d])
      (if d ≠ 0 then (format ++ [hexDigit d]).length else size) := by
  have htext : format ++ [hexDigit d] = (ds ++ [d]).map hexDigit := by simp [h.text]
  have hsmall : ∀ e ∈ ds ++ [d], e < 16 := by
    intro e he
    rcases List.mem_append.mp he with he | he
    · exact h.small e he
    · rw [List.mem_singleton.mp he]
      exact hd
  by_cases h0 : d ≠ 0
  · rw [if_pos h0, List.length_append, h.length_eq, List.length_singleton]
    refine ⟨htext, hsmall, ?_, Or.inr ⟨d, h0, by simp⟩, by omega⟩
    simp
  · have hd0 : d = 0 := by omega
    rw [if_neg h0]
    refine ⟨htext, hsmall, ?_, ?_, h.pos⟩
    · intro e he
      rw [List.drop_append] at he
      rcases List.mem_append.mp he with he | he
      · exact h.zeros e he
      · rw [List.mem_singleton.mp (List.mem_of_mem_drop he), hd0]
    · rcases h.last with hone | ⟨e, he, hget⟩
      · exact Or.inl hone
      · refine Or.inr ⟨e, he, ?_⟩
        obtain ⟨hlt, -⟩ := List.getElem?_eq_some_iff.mp hget
        rw [List.getElem?_append_left hlt, hget]

/-- There is a digit at the end of a nonempty numeral. -/
theorem size_le (h : Numeral ds format size) (hne : ds ≠ []) : size ≤ ds.length := by
  rcases h.last with hone | ⟨d, -, hget⟩
  · rw [hone]
    exact List.length_pos_iff.mpr hne
  · obtain ⟨hlt, -⟩ := List.getElem?_eq_some_iff.mp hget
    omega

end Numeral

/-! ## The loop -/

/-- The CPUs below `i` as a number. -/
def cpuSum {n : Nat} (cpuset : BitVec n) (i : Nat) : Nat :=
  ∑ k ∈ range i with cpuset.getLsbD k, 2 ^ k

/-- What the loop knows before CPU `i`: the digits written are full, and the one that is being
collected has the rest. -/
structure Written {n : Nat} (cpuset : BitVec n) (i : Nat) (ds : List Nat) (s : Formatting) : Prop
    extends Numeral ds s.format s.lastNonZeroSize where
  length : ds.length = i / 4
  digit : s.digit < 2 ^ (i % 4)
  value : Nat.ofDigits 16 ds + 2 ^ (4 * ds.length) * s.digit = cpuSum cpuset i

variable {n : Nat} {cpuset : BitVec n}

theorem cpuSum_succ (i : Nat) :
    cpuSum cpuset (i + 1) = cpuSum cpuset i + if cpuset.getLsbD i then 2 ^ i else 0 := by
  rw [cpuSum, range_add_one, filter_insert]
  split
  · rw [sum_insert (by simp), Nat.add_comm, cpuSum]
  · rw [Nat.add_zero, cpuSum]

/-- The bit of CPU `i` in the digit. -/
theorem digit_or {digit i : Nat} (b : Bool) (h : digit < 2 ^ (i % 4)) :
    (if b then digit ||| 1 <<< (i &&& 3) else digit) = digit + if b then 2 ^ (i % 4) else 0 := by
  have hmod : i &&& 3 = i % 4 := Nat.and_two_pow_sub_one_eq_mod i 2
  cases b with
  | false => simp
  | true =>
      simp only [if_true]
      rw [hmod, Nat.one_shiftLeft, Nat.or_comm, Nat.add_comm]
      have hor := Nat.two_pow_add_eq_or_of_lt h 1
      rw [Nat.mul_one] at hor
      exact hor.symm

/-- One CPU more. -/
theorem Written.step {i : Nat} {ds : List Nat} {s : Formatting} (h : Written cpuset i ds s) :
    ∃ ds', Written cpuset (i + 1) ds' (formatBody cpuset i s) := by
  have hmod : i &&& 3 = i % 4 := Nat.and_two_pow_sub_one_eq_mod i 2
  have hi : 2 ^ i = 2 ^ (4 * ds.length) * 2 ^ (i % 4) := by
    rw [← pow_add, h.length, Nat.div_add_mod]
  have hdigit := digit_or (cpuset.getLsbD i) h.digit
  unfold formatBody
  simp only [hdigit]
  generalize hd : (s.digit + if cpuset.getLsbD i then 2 ^ (i % 4) else 0) = digit
  have hlt : digit < 2 ^ (i % 4 + 1) := by
    have := h.digit
    rw [pow_succ, ← hd]
    split <;> omega
  have hvalue : Nat.ofDigits 16 ds + 2 ^ (4 * ds.length) * digit = cpuSum cpuset (i + 1) := by
    rw [cpuSum_succ, ← h.value, ← hd, hi]
    split <;> ring
  by_cases h3 : i % 4 = 3
  · have hd16 : digit < 16 := by rwa [h3] at hlt
    have hpush := h.push hd16
    refine ⟨ds ++ [digit], ?_⟩
    have hlength : (ds ++ [digit]).length = (i + 1) / 4 := by
      rw [List.length_append, h.length, List.length_singleton]
      omega
    have hzero : 0 < 2 ^ ((i + 1) % 4) := Nat.two_pow_pos _
    rw [hmod, if_pos h3]
    rw [← ofDigits_push] at hvalue
    by_cases h0 : digit ≠ 0
    · rw [if_pos h0] at hpush ⊢
      exact ⟨hpush, hlength, hzero, by rw [Nat.mul_zero, Nat.add_zero, hvalue]⟩
    · have hd0 : digit = 0 := by omega
      rw [if_neg h0] at hpush ⊢
      refine ⟨hpush, hlength, ?_, ?_⟩
      · exact hd0 ▸ hzero
      · rw [hvalue]
        change cpuSum cpuset (i + 1) + _ * digit = _
        rw [hd0, Nat.mul_zero, Nat.add_zero]
  · rw [hmod, if_neg h3]
    refine ⟨ds, ⟨h.toNumeral, ?_, ?_, hvalue⟩⟩
    · rw [h.length]
      omega
    · rwa [show (i + 1) % 4 = i % 4 + 1 by omega]

theorem written (cpuset : BitVec n) (i : Nat) :
    ∃ ds, Written cpuset i ds (forUpTo i (formatBody cpuset) ⟨[], 0, 1⟩) := by
  refine forUpTo_inv (fun i s => ∃ ds, Written cpuset i ds s) ?_ ?_
  · refine ⟨[], ⟨rfl, ?_, ?_, Or.inl rfl, le_rfl⟩, rfl, Nat.one_pos, rfl⟩
    · exact fun d hd => absurd hd List.not_mem_nil
    · exact fun d hd => absurd hd List.not_mem_nil
  · rintro k - s ⟨ds, h⟩
    exact h.step

end StressAppTest.Control
