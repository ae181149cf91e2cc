import Mathlib.NumberTheory.Multiplicity
import Mathlib.Data.Nat.Factorization.Basic
import Mathlib.Data.Nat.Nth
import Mathlib.Algebra.Field.GeomSum
import Mathlib.Dynamics.PeriodicPts.Lemmas
import Mathlib.Tactic.LinearCombination

/-!
# Full period of a linear congruential generator

`next a c m x = (a * x + c) % m` is one step of the generator. Under the conditions of
Hull and Dobell (`FullPeriod`: the increment is prime to the modulus, every prime factor
of the modulus divides `a - 1`, and `4 ∣ a - 1` when `4 ∣ m`) the orbit of every residue
runs through all residues before it returns.

The step from the conditions to the period goes through the geometric sums
`S n = 1 + a + ⋯ + a ^ (n - 1)`: two equal iterates force `m ∣ S n`, and lifting the
exponent, one prime power of `m` at a time, turns that into `m ∣ n` (`dvd_of_dvd_geomSum`).

The second half is about walks that discard what lies outside a window `x < q`
(`seek`, `visit`): a full orbit restricted to the window visits each of its elements exactly
once (`visit_injOn`, `exists_visit`), and each discard run ends (`exists_seek`).
-/

namespace Lcg

/-- One step of the generator. -/
def next (a c m x : Nat) : Nat := (a * x + c) % m

/-- The conditions of Hull and Dobell on multiplier, increment and modulus. -/
structure FullPeriod (a c m : Nat) : Prop where
  pos : 0 < m
  one_le : 1 ≤ a
  coprime : Nat.Coprime c m
  prime_dvd : ∀ p, p.Prime → p ∣ m → p ∣ a - 1
  four_dvd : 4 ∣ m → 4 ∣ a - 1

/-! ## Geometric sums -/

/-- `1 + a + ⋯ + a ^ (n - 1)`. -/
def geomSum (a n : Nat) : Nat := ∑ i ∈ Finset.range n, a ^ i

theorem geomSum_succ (a n : Nat) : geomSum a (n + 1) = a * geomSum a n + 1 := by
  simp only [geomSum, Finset.sum_range_succ', pow_zero, Finset.mul_sum]
  congr 1
  exact Finset.sum_congr rfl fun i _ => by rw [pow_succ, mul_comm]

theorem sub_one_mul_geomSum (a n : Nat) : ((a : ℤ) - 1) * geomSum a n = (a : ℤ) ^ n - 1 := by
  have h := mul_geom_sum (a : ℤ) n
  simpa [geomSum] using h

/-- Modulo a divisor of `a - 1` every power of `a` is one. -/
theorem geomSum_modEq {a d n : Nat} (ha : 1 ≤ a) (h : d ∣ a - 1) : geomSum a n ≡ n [MOD d] := by
  have h1 : a ≡ 1 [MOD d] := ((Nat.modEq_iff_dvd' ha).mpr h).symm
  induction n with
  | zero => exact Nat.ModEq.refl _
  | succ n ih =>
      rw [geomSum_succ]
      have := (h1.mul ih).add_right 1
      simpa using this

/-- The prime-power step for any prime whose exponent lifts. -/
theorem pow_dvd_of_lift {a n p k : Nat} (hp : p.Prime) (ha : 1 < a)
    (hlift : emultiplicity (p : ℤ) ((a : ℤ) ^ n - 1 ^ n) =
      emultiplicity (p : ℤ) ((a : ℤ) - 1) + emultiplicity p n)
    (h : p ^ k ∣ geomSum a n) : p ^ k ∣ n := by
  have hfin : FiniteMultiplicity (p : ℤ) ((a : ℤ) - 1) := by
    apply Int.finiteMultiplicity_iff.mpr
    exact ⟨by simpa using hp.ne_one, by omega⟩
  rw [one_pow, ← sub_one_mul_geomSum,
    emultiplicity_mul (Nat.prime_iff_prime_int.mp hp)] at hlift
  have hsum : emultiplicity (p : ℤ) (geomSum a n : ℤ) = emultiplicity p n := by
    rw [hfin.emultiplicity_eq_multiplicity] at hlift
    exact ENat.add_right_injective_of_ne_top (ENat.natCast_ne_top _) hlift
  rw [Int.natCast_emultiplicity] at hsum
  exact pow_dvd_of_le_emultiplicity (hsum ▸ le_emultiplicity_of_pow_dvd h)

theorem pow_dvd_of_dvd_geomSum {a n p k : Nat} (hp : p.Prime) (ha : 1 ≤ a)
    (hpa : p ∣ a - 1) (h4 : p = 2 → 2 ≤ k → 4 ∣ a - 1) (h : p ^ k ∣ geomSum a n) :
    p ^ k ∣ n := by
  rcases Nat.lt_or_eq_of_le ha with ha' | rfl
  · have hcast : ((a - 1 : Nat) : ℤ) = (a : ℤ) - 1 := by omega
    have hdvd : (p : ℤ) ∣ (a : ℤ) - 1 := by
      rw [← hcast]
      exact_mod_cast hpa
    have hnot : ¬ (p : ℤ) ∣ (a : ℤ) := by
      intro hd
      have h1 : (p : ℤ) ∣ 1 := by simpa using Int.dvd_sub hd hdvd
      exact hp.one_lt.ne' (by exact_mod_cast Int.eq_one_of_dvd_one (by omega) h1)
    rcases hp.eq_two_or_odd' with rfl | hodd
    · rcases Nat.lt_or_ge k 2 with hk | hk
      · -- one factor of two: the sum has the parity of `n`
        have hle : 2 ^ k ∣ a - 1 := (pow_dvd_pow 2 (by omega : k ≤ 1)).trans (by simpa using hpa)
        exact (Nat.modEq_zero_iff_dvd.mp
          ((geomSum_modEq ha hle).symm.trans (Nat.modEq_zero_iff_dvd.mpr h)))
      · have h4' : (4 : ℤ) ∣ (a : ℤ) - 1 := by
          rw [← hcast]
          exact_mod_cast h4 rfl hk
        refine pow_dvd_of_lift hp ha' ?_ h
        have := Int.two_pow_sub_pow' n h4' (by exact_mod_cast hnot)
        rw [← Int.natCast_emultiplicity 2 n]
        exact_mod_cast this
    · exact pow_dvd_of_lift hp ha'
        (Int.emultiplicity_pow_sub_pow hp hodd hdvd hnot n) h
  · simpa [geomSum] using h

/-- **The number-theoretic core.** The modulus divides a geometric sum of the multiplier
only if it divides the number of its terms. -/
theorem dvd_of_dvd_geomSum {a c m n : Nat} (hF : FullPeriod a c m) (h : m ∣ geomSum a n) :
    m ∣ n := by
  rw [Nat.dvd_iff_prime_pow_dvd_dvd]
  intro p k hp hpk
  rcases Nat.eq_zero_or_pos k with rfl | hk
  · simp
  · have hpm : p ∣ m := (dvd_pow_self p hk.ne').trans hpk
    refine pow_dvd_of_dvd_geomSum hp hF.one_le (hF.prime_dvd p hp hpm) ?_ (hpk.trans h)
    rintro rfl hk2
    exact hF.four_dvd ((pow_dvd_pow 2 hk2).trans hpk)

/-! ## Orbits -/

theorem next_lt {a c m x : Nat} (hm : 0 < m) : next a c m x < m := Nat.mod_lt _ hm

theorem iterate_next_lt {a c m x : Nat} (hx : x < m) (n : Nat) : (next a c m)^[n] x < m := by
  cases n with
  | zero => exact hx
  | succ n =>
      rw [Function.iterate_succ_apply']
      exact next_lt (by omega)

theorem iterate_next_modEq (a c m x n : Nat) :
    (next a c m)^[n] x ≡ a ^ n * x + c * geomSum a n [MOD m] := by
  induction n with
  | zero => simpa [geomSum] using Nat.ModEq.refl (n := m) x
  | succ n ih =>
      rw [Function.iterate_succ_apply', next, geomSum_succ]
      refine (Nat.mod_modEq _ m).trans (((ih.mul_left a).add_right c).trans ?_)
      rw [show a * (a ^ n * x + c * geomSum a n) + c =
        a ^ (n + 1) * x + c * (a * geomSum a n + 1) by ring]

/-- An orbit returns to its start only after a multiple of the modulus. -/
theorem dvd_of_iterate_eq {a c m x n : Nat} (hF : FullPeriod a c m)
    (h : (next a c m)^[n] x ≡ x [MOD m]) : m ∣ n := by
  refine dvd_of_dvd_geomSum hF ?_
  have heq := (iterate_next_modEq a c m x n).symm.trans h
  -- `a ^ n x + c S n ≡ x` is `S n ((a - 1) x + c) ≡ 0`
  have hpow : a ^ n = (a - 1) * geomSum a n + 1 := by
    have h1 := sub_one_mul_geomSum a n
    have h2 : ((a - 1 : Nat) : ℤ) = (a : ℤ) - 1 := by have := hF.one_le; omega
    zify
    rw [h2]
    linarith
  have hsum : geomSum a n * ((a - 1) * x + c) + x ≡ 0 + x [MOD m] := by
    rw [zero_add]
    rw [hpow] at heq
    rwa [show geomSum a n * ((a - 1) * x + c) + x =
      ((a - 1) * geomSum a n + 1) * x + c * geomSum a n by ring]
  have hdvd : m ∣ geomSum a n * ((a - 1) * x + c) :=
    Nat.modEq_zero_iff_dvd.mp (Nat.ModEq.add_right_cancel' x hsum)
  refine Nat.Coprime.dvd_of_dvd_mul_right ?_ hdvd
  refine Nat.Coprime.symm (Nat.coprime_of_dvd fun p hp hpx hpm => ?_)
  have hpc : p ∣ c := (Nat.dvd_add_right ((hF.prime_dvd p hp hpm).mul_right x)).mp hpx
  exact hp.one_lt.ne' (Nat.eq_one_of_dvd_coprimes hF.coprime hpc hpm)

theorem next_injective_mod {a c m x y : Nat} (hF : FullPeriod a c m) (hx : x < m) (hy : y < m)
    (h : next a c m x = next a c m y) : x = y := by
  have hac : Nat.Coprime m a := by
    refine Nat.coprime_of_dvd fun p hp hpm hpa => ?_
    have h1 : p ∣ 1 := by
      have := Nat.dvd_sub hpa (hF.prime_dvd p hp hpm)
      rwa [Nat.sub_sub_self hF.one_le] at this
    exact hp.one_lt.ne' (Nat.dvd_one.mp h1)
  have hmod : a * x ≡ a * y [MOD m] := Nat.ModEq.add_right_cancel' c h
  exact Nat.ModEq.eq_of_lt_of_lt (Nat.ModEq.cancel_left_of_coprime hac hmod) hx hy

theorem iterate_next_cancel {a c m x : Nat} (hF : FullPeriod a c m) (hx : x < m) {i j : Nat}
    (h : (next a c m)^[i + j] x = (next a c m)^[i] x) : (next a c m)^[j] x = x := by
  induction i with
  | zero => simpa using h
  | succ i ih =>
      refine ih (next_injective_mod hF (iterate_next_lt hx _) (iterate_next_lt hx _) ?_)
      rw [← Function.iterate_succ_apply' (next a c m), ← Function.iterate_succ_apply' (next a c m)]
      rwa [show (i + j).succ = i + 1 + j by omega]

/-- Distinct step counts below the modulus reach distinct residues. -/
theorem iterate_next_injOn {a c m x : Nat} (hF : FullPeriod a c m) (hx : x < m) {i j : Nat}
    (hi : i < m) (hj : j < m) (h : (next a c m)^[i] x = (next a c m)^[j] x) : i = j := by
  wlog hij : i ≤ j generalizing i j
  · exact (this hj hi h.symm (by omega)).symm
  obtain ⟨k, rfl⟩ := Nat.exists_eq_add_of_le hij
  have hret := iterate_next_cancel hF hx h.symm
  have hk : m ∣ k := dvd_of_iterate_eq hF (x := x) (by rw [hret])
  have : k = 0 := Nat.eq_zero_of_dvd_of_lt hk (by omega)
  omega

/-- **Full period.** Every residue is reached, within the first `m` steps. -/
theorem exists_iterate_next {a c m x y : Nat} (hF : FullPeriod a c m) (hx : x < m) (hy : y < m) :
    ∃ i < m, (next a c m)^[i] x = y := by
  have himage : (Finset.range m).image (fun i => (next a c m)^[i] x) = Finset.range m := by
    refine Finset.eq_of_subset_of_card_le ?_ ?_
    · intro z hz
      obtain ⟨i, -, rfl⟩ := Finset.mem_image.mp hz
      exact Finset.mem_range.mpr (iterate_next_lt hx i)
    · rw [Finset.card_image_of_injOn]
      intro i hi j hj hij
      exact iterate_next_injOn hF hx (Finset.mem_range.mp hi) (Finset.mem_range.mp hj) hij
  have hmem : y ∈ (Finset.range m).image (fun i => (next a c m)^[i] x) := by
    rw [himage]
    exact Finset.mem_range.mpr hy
  obtain ⟨i, hi, rfl⟩ := Finset.mem_image.mp hmem
  exact ⟨i, Finset.mem_range.mp hi, rfl⟩

/-! ## Walks that discard -/

section Walk

variable {α : Type*} (f : α → α) (p : α → Prop) [DecidablePred p]

/-- The first element of the orbit of `x`, `x` included, that is kept. -/
def seek : Nat → α → Option α
  | 0, _ => none
  | fuel + 1, x => if p x then some x else seek fuel (f x)

theorem seek_eq_some {fuel j : Nat} {x : α} (hj : j < fuel) (hkeep : p (f^[j] x))
    (hdiscard : ∀ i < j, ¬ p (f^[i] x)) : seek f p fuel x = some (f^[j] x) := by
  induction fuel generalizing x j with
  | zero => omega
  | succ fuel ih =>
      unfold seek
      cases j with
      | zero => rw [if_pos (by simpa using hkeep)]; rfl
      | succ j =>
          rw [if_neg (by simpa using hdiscard 0 (by omega))]
          refine ih (by omega) (by simpa using hkeep) fun i hi => ?_
          simpa using hdiscard (i + 1) (by omega)

theorem exists_seek {fuel j : Nat} {x : α} (hj : j < fuel) (hkeep : p (f^[j] x)) :
    ∃ y, seek f p fuel x = some y := by
  classical
  have hex : ∃ i, p (f^[i] x) := ⟨j, hkeep⟩
  have hle : Nat.find hex ≤ j := Nat.find_min' hex hkeep
  exact ⟨_, seek_eq_some f p (by omega) (Nat.find_spec hex) fun i hi => Nat.find_min hex hi⟩

/-- Two maps that agree on an invariant set seek alike from it. -/
theorem seek_congr {g : α → α} {S : α → Prop} (hclosed : ∀ y, S y → S (f y))
    (hfg : ∀ y, S y → g y = f y) {fuel : Nat} {x : α} (hx : S x) :
    seek g p fuel x = seek f p fuel x := by
  induction fuel generalizing x with
  | zero => rfl
  | succ fuel ih =>
      unfold seek
      rw [hfg x hx, ih (hclosed x hx)]

/-- The times at which the orbit of `x` is kept. -/
def KeptAt (x : α) (i : Nat) : Prop := p (f^[i] x)

instance (x : α) : DecidablePred (KeptAt f p x) := fun i => inferInstanceAs (Decidable (p (f^[i] x)))

/-- After the `k`-th kept element, discarding leads to the next kept one. -/
theorem seek_after_nth {x : α} {k n : Nat} (hk : k + 1 < Nat.count (KeptAt f p x) n) :
    seek f p n (f (f^[Nat.nth (KeptAt f p x) k] x)) =
      some (f^[Nat.nth (KeptAt f p x) (k + 1)] x) := by
  have hcard : ∀ hf : (Set.ofPred (KeptAt f p x)).Finite, k + 1 < hf.toFinset.card := fun hf =>
    lt_of_lt_of_le hk (Nat.count_le_card hf n)
  have hlt : Nat.nth (KeptAt f p x) k < Nat.nth (KeptAt f p x) (k + 1) :=
    Nat.nth_lt_nth' (Nat.lt_succ_self k) hcard
  obtain ⟨d, hd⟩ := Nat.exists_eq_add_of_lt hlt
  have hshift : ∀ i, f^[i] (f (f^[Nat.nth (KeptAt f p x) k] x)) =
      f^[Nat.nth (KeptAt f p x) k + i + 1] x := by
    intro i
    rw [← Function.iterate_succ_apply' f, ← Function.iterate_add_apply]
    congr 1
    omega
  rw [hd, ← hshift]
  refine seek_eq_some f p ?_ ?_ ?_
  · have := Nat.nth_lt_of_lt_count hk
    omega
  · rw [hshift, ← hd]
    exact Nat.nth_mem (k + 1) hcard
  · intro i hi hp
    rw [hshift] at hp
    -- a kept time strictly between two consecutive ones
    have hbetween : Nat.nth (KeptAt f p x) k + i + 1 < Nat.nth (KeptAt f p x) (k + 1) := by omega
    have hle := Nat.le_nth_of_lt_nth_succ hbetween hp
    omega

end Walk

/-- A full orbit meets the window below `q` exactly `q` times per period. -/
theorem count_keptAt {a c m q x : Nat} (hF : FullPeriod a c m) (hx : x < m) (hq : q ≤ m) :
    Nat.count (KeptAt (next a c m) (· < q) x) m = q := by
  rw [Nat.count_eq_card_filter_range]
  conv_rhs => rw [← Finset.card_range q]
  refine Finset.card_bij (fun i _ => (next a c m)^[i] x) ?_ ?_ ?_
  · intro i hi
    exact Finset.mem_range.mpr (Finset.mem_filter.mp hi).2
  · intro i hi j hj hij
    exact iterate_next_injOn hF hx (Finset.mem_range.mp (Finset.mem_filter.mp hi).1)
      (Finset.mem_range.mp (Finset.mem_filter.mp hj).1) hij
  · intro y hy
    have hy' := Finset.mem_range.mp hy
    obtain ⟨i, hi, rfl⟩ := exists_iterate_next hF hx (hy'.trans_le hq)
    exact ⟨i, Finset.mem_filter.mpr ⟨Finset.mem_range.mpr hi, hy'⟩, rfl⟩

/-- The `k`-th element of the orbit of `x` that lies below `q`. -/
noncomputable def visit (a c m q x k : Nat) : Nat :=
  (next a c m)^[Nat.nth (KeptAt (next a c m) (· < q) x) k] x

theorem visit_zero {a c m q x : Nat} (hxq : x < q) : visit a c m q x 0 = x := by
  have h0 : Nat.nth (KeptAt (next a c m) (· < q) x) 0 = 0 :=
    Nat.nth_zero_of_zero (p := KeptAt (next a c m) (· < q) x) hxq
  rw [visit, h0]
  rfl

section Visit

variable {a c m q x : Nat} (hF : FullPeriod a c m) (hx : x < m) (hq : q ≤ m)

include hF hx hq

theorem card_keptAt {k : Nat} (hk : k < q) :
    ∀ hf : (Set.ofPred (KeptAt (next a c m) (· < q) x)).Finite, k < hf.toFinset.card := fun hf =>
  lt_of_lt_of_le (hk.trans_eq (count_keptAt hF hx hq).symm) (Nat.count_le_card hf m)

theorem visit_lt {k : Nat} (hk : k < q) : visit a c m q x k < q :=
  Nat.nth_mem (p := KeptAt (next a c m) (· < q) x) k (card_keptAt hF hx hq hk)

theorem visit_injOn {j k : Nat} (hj : j < q) (hk : k < q)
    (h : visit a c m q x j = visit a c m q x k) : j = k := by
  have hcount := count_keptAt hF hx hq
  have htime := iterate_next_injOn hF hx
    (Nat.nth_lt_of_lt_count (hj.trans_eq hcount.symm))
    (Nat.nth_lt_of_lt_count (hk.trans_eq hcount.symm)) h
  rcases Nat.lt_trichotomy j k with hjk | hjk | hjk
  · exact absurd htime (Nat.nth_lt_nth' hjk (card_keptAt hF hx hq hk)).ne
  · exact hjk
  · exact absurd htime (Nat.nth_lt_nth' hjk (card_keptAt hF hx hq hj)).ne'

theorem seek_visit {k : Nat} (hk : k + 1 < q) :
    seek (next a c m) (· < q) m (next a c m (visit a c m q x k)) = some (visit a c m q x (k + 1)) :=
  seek_after_nth _ _ (hk.trans_eq (count_keptAt hF hx hq).symm)

/-- **Coverage.** The first `q` visits are a permutation of the window. -/
theorem exists_visit {y : Nat} (hy : y < q) : ∃ k < q, visit a c m q x k = y := by
  have hsurj := Finset.surjOn_of_injOn_of_card_le (s := Finset.range q) (t := Finset.range q)
    (visit a c m q x) (fun k hk => by simpa using visit_lt hF hx hq (by simpa using hk))
    (fun j hj k hk h => visit_injOn hF hx hq (by simpa using hj) (by simpa using hk) h) le_rfl
  obtain ⟨k, hk, rfl⟩ := hsurj (by simpa using hy : y ∈ (Finset.range q : Set Nat))
  exact ⟨k, by simpa using hk, rfl⟩

end Visit

/-- A discard run ends wherever it starts. -/
theorem exists_seek_next {a c m q y : Nat} (hF : FullPeriod a c m) (hpos : 0 < q)
    (hq : q ≤ m) (hy : y < m) :
    ∃ z, seek (next a c m) (· < q) m y = some z := by
  obtain ⟨j, hj, h0⟩ := exists_iterate_next hF hy (hpos.trans_le hq)
  exact exists_seek _ _ hj (by rw [h0]; exact hpos)

end Lcg
