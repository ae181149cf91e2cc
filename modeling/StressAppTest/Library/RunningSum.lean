import Mathlib.Algebra.BigOperators.Intervals
import Mathlib.Algebra.BigOperators.Ring.Finset
import Mathlib.Algebra.Order.BigOperators.Group.Finset
import Mathlib.Algebra.CharZero.Defs
import Mathlib.Algebra.Ring.Int.Defs
import Mathlib.Tactic.LinearCombination
import Mathlib.Tactic.Linarith
import Mathlib.Tactic.Ring

/-!
# Running sums

`plain c u n` is a start value plus the first `n` terms of a sequence, `weighted c u n` the sum
of the values it takes after each of them. The second one weights a term by its distance from
the end, so the pair tells apart sequences that the plain sum confuses.

* `eq_of_sums_eq`: sequences with the same pair of sums do not differ in one or two places only.
* `weighted_le`: what the weighted sum can grow to under a bound on the terms.
-/

namespace RunningSum

open Finset

/-- The start value and the first `n` terms. -/
def plain {R : Type*} [CommSemiring R] (c : R) (u : ℕ → R) (n : ℕ) : R := c + ∑ i ∈ range n, u i

/-- The sum of the running sums after each of the first `n` terms. -/
def weighted {R : Type*} [CommSemiring R] (c : R) (u : ℕ → R) (n : ℕ) : R :=
  ∑ k ∈ range n, plain c u (k + 1)

section Semiring

variable {R : Type*} [CommSemiring R] (c : R) (u : ℕ → R)

@[simp] theorem plain_zero : plain c u 0 = c := by simp [plain]

@[simp] theorem weighted_zero : weighted c u 0 = 0 := by simp [weighted]

theorem plain_succ (n : ℕ) : plain c u (n + 1) = plain c u n + u n := by
  rw [plain, plain, sum_range_succ, add_assoc]

theorem weighted_succ (n : ℕ) : weighted c u (n + 1) = weighted c u n + plain c u (n + 1) := by
  rw [weighted, weighted, sum_range_succ]

end Semiring

/-! ## Telling sequences apart -/

section Ring

variable {R : Type*} [CommRing R]

/-- A term enters the weighted sum once for each term from it to the end. -/
theorem weighted_eq (c : R) (u : ℕ → R) (n : ℕ) :
    weighted c u n = n * c + ∑ i ∈ range n, ((n : R) - i) * u i := by
  induction n with
  | zero => simp
  | succ n ih =>
      have hshift : ∑ i ∈ range n, ((n : R) + 1 - i) * u i =
          ∑ i ∈ range n, ((n : R) - i) * u i + ∑ i ∈ range n, u i := by
        rw [← sum_add_distrib]
        refine sum_congr rfl fun i _ => ?_
        ring
      rw [weighted_succ, ih, plain, sum_range_succ, sum_range_succ, Nat.cast_add, Nat.cast_one, hshift]
      ring

variable [NoZeroDivisors R] [CharZero R] [DecidableEq R]

/-- A sequence with at most two terms that are not zero, and both sums zero, is zero. -/
theorem eq_zero_of_sums {d : ℕ → R} {n : ℕ} (hplain : ∑ i ∈ range n, d i = 0)
    (hweighted : ∑ i ∈ range n, ((n : R) - i) * d i = 0)
    (hcard : ((range n).filter fun i => d i ≠ 0).card ≤ 2) : ∀ i < n, d i = 0 := by
  have hrest {f : ℕ → R} : ∑ i ∈ range n, f i * d i =
      ∑ i ∈ (range n).filter (fun i => d i ≠ 0), f i * d i := by
    refine (sum_filter_of_ne fun i _ h => ?_).symm
    exact right_ne_zero_of_mul h
  have hplain' : ∑ i ∈ range n, (1 : R) * d i = 0 := by simpa using hplain
  rw [hrest] at hplain' hweighted
  intro i hi
  by_contra hne
  have hmem : i ∈ (range n).filter fun i => d i ≠ 0 := mem_filter.mpr ⟨mem_range.mpr hi, hne⟩
  have hpos : 0 < ((range n).filter fun i => d i ≠ 0).card := card_pos.mpr ⟨i, hmem⟩
  obtain h1 | h2 : ((range n).filter fun i => d i ≠ 0).card = 1 ∨
      ((range n).filter fun i => d i ≠ 0).card = 2 := by omega
  · -- one term alone is its sum
    obtain ⟨j, hj⟩ := card_eq_one.mp h1
    rw [hj, mem_singleton] at hmem
    rw [hj, sum_singleton, one_mul] at hplain'
    exact hne (hmem ▸ hplain')
  · -- two terms that cancel have different weights
    obtain ⟨j, k, hjk, hset⟩ := card_eq_two.mp h2
    have hjne : d j ≠ 0 := by
      have : j ∈ (range n).filter fun i => d i ≠ 0 := by
        rw [hset]
        exact mem_insert_self _ _
      exact (mem_filter.mp this).2
    rw [hset, sum_pair hjk] at hplain' hweighted
    have hprod : ((k : R) - j) * d j = 0 := by
      linear_combination hweighted - ((n : R) - k) * hplain'
    have hkj : (k : R) - j ≠ 0 := by
      rw [sub_ne_zero]
      exact_mod_cast hjk.symm
    exact hjne ((mul_eq_zero.mp hprod).resolve_left hkj)

end Ring

/-- **Two errors are seen.** Sequences with the same sums that differ in at most two places are
the same. -/
theorem eq_of_sums_eq {c : ℕ} {u v : ℕ → ℕ} {n : ℕ} (hplain : plain c u n = plain c v n)
    (hweighted : weighted c u n = weighted c v n)
    (hcard : ((range n).filter fun i => u i ≠ v i).card ≤ 2) : ∀ i < n, u i = v i := by
  -- over the integers the difference of the sequences has both sums zero
  have hcast (w : ℕ → ℕ) : ((weighted c w n : ℕ) : ℤ) = weighted (c : ℤ) (fun i => (w i : ℤ)) n := by
    simp [weighted, plain]
  have hplain' : ∑ i ∈ range n, ((u i : ℤ) - v i) = 0 := by
    have := congrArg (Nat.cast : ℕ → ℤ) hplain
    simp only [plain, Nat.cast_add, Nat.cast_sum] at this
    rw [sum_sub_distrib]
    linarith
  have hweighted' : ∑ i ∈ range n, ((n : ℤ) - i) * ((u i : ℤ) - v i) = 0 := by
    have := congrArg (Nat.cast : ℕ → ℤ) hweighted
    rw [hcast, hcast, weighted_eq, weighted_eq] at this
    simp only [mul_sub (_ - _), sum_sub_distrib]
    linarith
  have hcard' : ((range n).filter fun i => (u i : ℤ) - v i ≠ 0).card ≤ 2 := by
    have hsame : ((range n).filter fun i => (u i : ℤ) - v i ≠ 0) = (range n).filter fun i => u i ≠ v i := by
      refine filter_congr fun i _ => ?_
      rw [sub_ne_zero]
      exact_mod_cast Iff.rfl
    rw [hsame]
    exact hcard
  intro i hi
  have := eq_zero_of_sums hplain' hweighted' hcard' i hi
  exact_mod_cast sub_eq_zero.mp this

/-! ## Growth -/

theorem plain_le {c b : ℕ} {u : ℕ → ℕ} {n : ℕ} (h : ∀ i, u i ≤ b) : plain c u n ≤ c + n * b := by
  have := sum_le_card_nsmul (range n) u b fun i _ => h i
  rw [card_range, smul_eq_mul] at this
  exact Nat.add_le_add_left this c

theorem weighted_le {c b : ℕ} {u : ℕ → ℕ} (h : ∀ i, u i ≤ b) (n : ℕ) :
    2 * weighted c u n ≤ 2 * (n * c) + b * (n * (n + 1)) := by
  induction n with
  | zero => simp
  | succ n ih =>
      have hplain : plain c u (n + 1) ≤ c + (n + 1) * b := plain_le h
      rw [weighted_succ]
      calc 2 * (weighted c u n + plain c u (n + 1))
          ≤ 2 * (n * c) + b * (n * (n + 1)) + 2 * (c + (n + 1) * b) := by omega
        _ = 2 * ((n + 1) * c) + b * ((n + 1) * (n + 1 + 1)) := by ring

/-- A constant sequence reaches the bound. -/
theorem weighted_const (c b n : ℕ) :
    2 * weighted c (fun _ => b) n = 2 * (n * c) + b * (n * (n + 1)) := by
  induction n with
  | zero => simp
  | succ n ih =>
      have hplain : plain c (fun _ => b) (n + 1) = c + (n + 1) * b := by simp [plain]
      rw [weighted_succ, Nat.mul_add, ih, hplain]
      ring

end RunningSum
