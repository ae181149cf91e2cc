import Mathlib.NumberTheory.Bertrand
import StressAppTest.Library.FullPeriod
import StressAppTest.Library.Loop

/-!
# The path through the queue (`finelock_queue.cc`)

The constructor of `FineLockPEQueue` picks a linear congruential generator whose orbit is the
order in which a search looks at the pages. `getA` and `getC` are its loops; the loops without
a counter return `none` if they were to run on forever.

* `getA_eq`: the divisor loop computes the product of the prime factors.
* `getC_eq`: the search for an increment ends at the largest prime not above `3 m / 4 + 1`.
* `chooseGenerator_spec`: the constructor always ends, with a modulus that is at least the
  queue size and fulfils the conditions of a full period.

All the numbers here stay below `2 ^ 63` for every queue that can be allocated, so the
constructor is modelled over `Nat`; the product of the search itself is not (`Path.step`).
-/

namespace StressAppTest.FineLock

open Finset

/-! ## `getA` -/

/-- `while (((remaining / i) * i) == remaining) remaining /= i;` -/
def divideOut (i : Nat) : Nat → Nat → Option Nat
  | 0, _ => none
  | fuel + 1, remaining =>
    if remaining / i * i = remaining then divideOut i fuel (remaining / i) else some remaining

/-- The body of the `for` loop of `getA`, on `(remaining, a)`. -/
def getABody (m i : Nat) (s : Nat × Nat) : Option (Nat × Nat) :=
  if s.1 / i * i = s.1 then
    (divideOut i m (s.1 / i)).map fun remaining => (remaining, s.2 * i)
  else some s

/-- `FineLockPEQueue::getA` -/
def getA (m : Nat) : Option Nat :=
  let a := if m / 4 * 4 = m then 2 else 1
  (forUpTo (m - 1) (fun k s => s.bind (getABody m (k + 2))) (some (m, a))).map
    fun s => (s.2 + 1) % m

theorem div_mul_eq_iff_dvd {n i : Nat} : n / i * i = n ↔ i ∣ n :=
  ⟨fun h => ⟨n / i, by rw [Nat.mul_comm]; exact h.symm⟩, Nat.div_mul_cancel⟩

/-- The division loop ends at a divisor free of `i` that has lost only powers of `i`. -/
theorem divideOut_spec {i fuel remaining : Nat} (hi : 2 ≤ i) (hr : 0 < remaining)
    (hfuel : remaining ≤ fuel) :
    ∃ r k, divideOut i fuel remaining = some r ∧ remaining = r * i ^ k ∧ ¬ i ∣ r := by
  induction fuel generalizing remaining with
  | zero => omega
  | succ fuel ih =>
      unfold divideOut
      by_cases h : remaining / i * i = remaining
      · have hlt : remaining / i < remaining := Nat.div_lt_self hr hi
        have hpos : 0 < remaining / i := by
          rcases Nat.eq_zero_or_pos (remaining / i) with h0 | h0
          · rw [h0] at h
            omega
          · exact h0
        obtain ⟨r, k, hout, heq, hnd⟩ := ih hpos (by omega)
        refine ⟨r, k + 1, by rw [if_pos h, hout], ?_, hnd⟩
        rw [pow_succ, ← Nat.mul_assoc, ← heq, h]
      · exact ⟨remaining, 0, by rw [if_neg h], by simp, fun hd => h (div_mul_eq_iff_dvd.mpr hd)⟩

/-- What the loop of `getA` knows after the divisors up to `j`: `remaining` has lost exactly
the prime factors up to `j`, and `a` has gained them. -/
structure DividedOut (m a₀ j remaining a : Nat) : Prop where
  dvd : remaining ∣ m
  small : ∀ p, p.Prime → p ≤ j → ¬ p ∣ remaining
  large : ∀ p, p.Prime → j < p → p ∣ m → p ∣ remaining
  prod : a = a₀ * ∏ p ∈ m.primeFactors with p ≤ j, p

theorem DividedOut.prime_of_dvd {m a₀ j remaining a : Nat} (h : DividedOut m a₀ j remaining a)
    (hj : 1 ≤ j) (hd : j + 1 ∣ remaining) : (j + 1).Prime := by
  rw [Nat.prime_def_minFac]
  refine ⟨by omega, ?_⟩
  by_contra hne
  have hp : (j + 1).minFac.Prime := Nat.minFac_prime (by omega)
  have hle : (j + 1).minFac ≤ j := by
    have := Nat.minFac_le (n := j + 1) (by omega)
    omega
  exact h.small _ hp hle ((Nat.minFac_dvd _).trans hd)

theorem primeFactors_filter_succ {m j : Nat} :
    (m.primeFactors.filter (· ≤ j + 1)) =
      if j + 1 ∈ m.primeFactors then insert (j + 1) (m.primeFactors.filter (· ≤ j))
      else m.primeFactors.filter (· ≤ j) := by
  ext p
  by_cases hmem : j + 1 ∈ m.primeFactors
  · simp only [hmem, if_true, mem_filter, mem_insert]
    constructor
    · rintro ⟨hp, hle⟩
      by_cases h : p = j + 1
      · exact .inl h
      · exact .inr ⟨hp, by omega⟩
    · rintro (rfl | ⟨hp, hle⟩)
      · exact ⟨hmem, le_rfl⟩
      · exact ⟨hp, by omega⟩
  · simp only [hmem, if_false, mem_filter]
    constructor
    · rintro ⟨hp, hle⟩
      refine ⟨hp, ?_⟩
      by_contra hgt
      exact hmem ((show p = j + 1 by omega) ▸ hp)
    · rintro ⟨hp, hle⟩
      exact ⟨hp, by omega⟩

/-- One pass of the loop of `getA`. -/
theorem DividedOut.step {m a₀ j remaining a : Nat} (hm : 0 < m) (hj : 1 ≤ j)
    (h : DividedOut m a₀ j remaining a) :
    ∃ s, getABody m (j + 1) (remaining, a) = some s ∧ DividedOut m a₀ (j + 1) s.1 s.2 := by
  have hpos : 0 < remaining := Nat.pos_of_dvd_of_pos h.dvd hm
  unfold getABody
  by_cases hd : j + 1 ∣ remaining
  · have hprime := h.prime_of_dvd hj hd
    rw [if_pos (div_mul_eq_iff_dvd.mpr hd)]
    have hqpos : 0 < remaining / (j + 1) := Nat.div_pos (Nat.le_of_dvd hpos hd) (by omega)
    have hqle : remaining / (j + 1) ≤ m :=
      (Nat.div_le_self _ _).trans (Nat.le_of_dvd hm h.dvd)
    obtain ⟨r, k, hout, heq, hnd⟩ := divideOut_spec (by omega : 2 ≤ j + 1) hqpos hqle
    have hrem : remaining = r * (j + 1) ^ (k + 1) := by
      rw [pow_succ, ← Nat.mul_assoc, ← heq, Nat.div_mul_cancel hd]
    have hrdvd : r ∣ remaining := ⟨_, hrem⟩
    refine ⟨(r, a * (j + 1)), by simp [hout], hrdvd.trans h.dvd, ?_, ?_, ?_⟩
    · intro p hp hle hpr
      rcases Nat.lt_or_ge p (j + 1) with hlt | hge
      · exact h.small p hp (by omega) (hpr.trans hrdvd)
      · rw [show p = j + 1 by omega] at hpr
        exact hnd hpr
    · intro p hp hlt hpm
      have hpr := h.large p hp (by omega) hpm
      rw [hrem] at hpr
      rcases (Nat.Prime.dvd_mul hp).mp hpr with hr | hpow
      · exact hr
      · have := (Nat.prime_dvd_prime_iff_eq hp hprime).mp (hp.dvd_of_dvd_pow hpow)
        omega
    · have hmem : j + 1 ∈ m.primeFactors :=
        Nat.mem_primeFactors.mpr ⟨hprime, hd.trans h.dvd, by omega⟩
      have hnot : j + 1 ∉ m.primeFactors.filter (· ≤ j) := by simp
      rw [primeFactors_filter_succ, if_pos hmem, prod_insert hnot, h.prod]
      ring
  · rw [if_neg (fun he => hd (div_mul_eq_iff_dvd.mp he))]
    have hnmem : j + 1 ∉ m.primeFactors := by
      intro hmem
      have hp := Nat.prime_of_mem_primeFactors hmem
      exact hd (h.large _ hp (by omega) (Nat.dvd_of_mem_primeFactors hmem))
    refine ⟨(remaining, a), rfl, h.dvd, ?_, ?_, ?_⟩
    · intro p hp hle hpr
      by_cases he : p = j + 1
      · exact hd (he ▸ hpr)
      · exact h.small p hp (by omega) hpr
    · exact fun p hp hlt => h.large p hp (by omega)
    · rw [primeFactors_filter_succ, if_neg hnmem]
      exact h.prod

/-- The factor `a` starts from. -/
def fourFactor (m : Nat) : Nat := if 4 ∣ m then 2 else 1

/-- The loop of `getA` after `k` passes. -/
theorem getA_loop {m k : Nat} (hm : 2 ≤ m) :
    ∃ t, forUpTo k (fun k s => s.bind (getABody m (k + 2)))
      (some (m, if m / 4 * 4 = m then 2 else 1)) = some t ∧
        DividedOut m (fourFactor m) (k + 1) t.1 t.2 := by
  refine forUpTo_inv (fun k (s : Option (Nat × Nat)) =>
    ∃ t, s = some t ∧ DividedOut m (fourFactor m) (k + 1) t.1 t.2) ?_ ?_
  · refine ⟨_, rfl, dvd_rfl, ?_, fun p _ _ hpm => hpm, ?_⟩
    · intro p hp hle
      have := hp.two_le
      omega
    · have hnone : (m.primeFactors.filter (· ≤ 0 + 1)) = ∅ := by
        refine filter_false_of_mem fun p hp => ?_
        have := (Nat.prime_of_mem_primeFactors hp).two_le
        omega
      simp only [hnone, prod_empty, Nat.mul_one, fourFactor, div_mul_eq_iff_dvd]
  · rintro k - s ⟨t, rfl, hinv⟩
    exact hinv.step (by omega) (by omega)

/-- **`getA`.** The multiplier less one is the product of the prime factors, doubled for a
multiple of four. -/
theorem getA_eq {m : Nat} (hm : 2 ≤ m) :
    getA m = some ((fourFactor m * (∏ p ∈ m.primeFactors, p) + 1) % m) := by
  obtain ⟨t, hs, hinv⟩ := getA_loop (k := m - 1) hm
  have hall : (m.primeFactors.filter (· ≤ m - 1 + 1)) = m.primeFactors := by
    refine filter_true_of_mem fun p hp => ?_
    have := Nat.le_of_mem_primeFactors hp
    omega
  have hprod := hinv.prod
  rw [hall] at hprod
  simp only [getA, hs, Option.map_some, hprod]

/-! ## `getC` -/

/-- The inner loop of `getC`: no `i` from 2 up divides `possiblePrime`. -/
def isPossiblePrime (possiblePrime : Nat) : Bool :=
  (List.range' 2 (possiblePrime - 2)).all fun i => possiblePrime / i * i ≠ possiblePrime

/-- The outer loop of `getC`, counting down. -/
def getCLoop : Nat → Nat
  | 0 => 1
  | 1 => 1
  | n + 2 => if isPossiblePrime (n + 2) then n + 2 else getCLoop (n + 1)

/-- `FineLockPEQueue::getC` -/
def getC (m : Nat) : Nat := getCLoop (3 * m / 4 + 1)

theorem isPossiblePrime_iff {n : Nat} (hn : 2 ≤ n) : isPossiblePrime n = true ↔ n.Prime := by
  simp only [isPossiblePrime, List.all_eq_true, List.mem_range'_1, ne_eq, decide_not,
    Bool.not_eq_eq_eq_not, Bool.not_true, decide_eq_false_iff_not, div_mul_eq_iff_dvd]
  rw [Nat.prime_def_lt']
  constructor
  · intro h
    exact ⟨hn, fun i h2 hlt => h i ⟨h2, by omega⟩⟩
  · rintro ⟨-, h⟩ i ⟨h2, hlt⟩
    exact h i h2 (by omega)

/-- The countdown ends at the largest prime in its range. -/
theorem getCLoop_spec (start : Nat) {p : Nat} (hp : p.Prime) (hle : p ≤ start) :
    (getCLoop start).Prime ∧ p ≤ getCLoop start ∧ getCLoop start ≤ start := by
  have h2 := hp.two_le
  fun_induction getCLoop start with
  | case1 => omega
  | case2 => omega
  | case3 n h => exact ⟨(isPossiblePrime_iff (by omega)).mp h, hle, le_rfl⟩
  | case4 n h ih =>
      have hne : p ≠ n + 2 := by
        rintro rfl
        exact h ((isPossiblePrime_iff (by omega)).mpr hp)
      obtain ⟨hprime, hge, hle'⟩ := ih (by omega)
      exact ⟨hprime, hge, by omega⟩

/-- **`getC`.** By Bertrand's postulate the increment is a prime above `3 m / 8`. -/
theorem getC_spec {m : Nat} (hm : 3 ≤ m) :
    (getC m).Prime ∧ 3 * m < 8 * getC m ∧ getC m ≤ 3 * m / 4 + 1 := by
  obtain ⟨p, hp, hlt, hle⟩ :=
    Nat.exists_prime_lt_and_le_two_mul ((3 * m / 4 + 1) / 2) (by omega)
  obtain ⟨hprime, hge, hstart⟩ := getCLoop_spec (3 * m / 4 + 1) hp (by omega)
  exact ⟨hprime, by unfold getC; omega, hstart⟩

/-! ## The constructor -/

/-- `while (a == 1) { modlength++; a = getA(modlength) % modlength; }`, on `(a, modlength)`. -/
def growModulus : Nat → Nat → Nat → Option (Nat × Nat)
  | 0, _, _ => none
  | fuel + 1, a, modlength =>
    if a = 1 then
      (getA (modlength + 1)).bind fun a' => growModulus fuel (a' % (modlength + 1)) (modlength + 1)
    else some (a, modlength)

/-- The generator `next = (a * next + c) % modlength` and the window it is cut to. -/
structure Path where
  qSize : Nat
  a : Nat
  c : Nat
  modlength : Nat
  deriving DecidableEq, Repr

/-- The generator part of `FineLockPEQueue::FineLockPEQueue`. The search for a modulus
never passes a multiple of eight, so nine tests are all it can take (`growModulus_spec`). -/
def chooseGenerator (queuesize : Nat) : Option Path :=
  if queuesize < 3 then some ⟨queuesize, 1, 1, queuesize⟩
  else do
    let a ← getA queuesize
    let (a, modlength) ← growModulus 9 (a % queuesize) queuesize
    pure ⟨queuesize, a, getC modlength, modlength⟩

/-- The multiplier the loops of the constructor see for a modulus. -/
def multiplier (m : Nat) : Nat := (fourFactor m * (∏ p ∈ m.primeFactors, p) + 1) % m

theorem getA_mod {m : Nat} (hm : 2 ≤ m) : getA m = some (multiplier m) ∧
    multiplier m % m = multiplier m :=
  ⟨getA_eq hm, Nat.mod_mod _ _⟩

/-- A power of two counts as one factor two. -/
theorem primeFactors_two_pow_mul (k : Nat) {t : Nat} (ht : t ≠ 0) :
    (2 ^ (k + 1) * t).primeFactors = (2 * t).primeFactors := by
  rw [Nat.primeFactors_mul (by positivity) ht, Nat.primeFactors_pow _ (by omega),
    ← Nat.primeFactors_mul (by norm_num) ht]

/-- A multiple of eight has a nontrivial multiplier. -/
theorem multiplier_ne_one_of_eight {m : Nat} (hm : 0 < m) (h8 : 8 ∣ m) : multiplier m ≠ 1 := by
  have h4 : 4 ∣ m := (by norm_num : 4 ∣ 8).trans h8
  obtain ⟨t, rfl⟩ := h8
  -- the product misses two of the three factors two
  have hle : (∏ p ∈ (8 * t).primeFactors, p) ≤ 2 * t := by
    rw [show 8 = 2 ^ (2 + 1) by norm_num, primeFactors_two_pow_mul 2 (by omega)]
    exact Nat.le_of_dvd (by omega) (Nat.prod_primeFactors_dvd _)
  have hpos : 0 < ∏ p ∈ (8 * t).primeFactors, p :=
    Finset.prod_pos fun p hp => Nat.pos_of_mem_primeFactors hp
  unfold multiplier
  rw [fourFactor, if_pos h4, Nat.mod_eq_of_lt (by omega)]
  omega

/-- The search for a modulus ends before the next multiple of eight is passed. -/
theorem growModulus_spec (fuel : Nat) {m : Nat} (hm : 2 ≤ m) (hfuel : 8 - m % 8 < fuel) :
    ∃ m', growModulus fuel (multiplier m) m = some (multiplier m', m') ∧ m ≤ m' ∧
      multiplier m' ≠ 1 := by
  induction fuel generalizing m with
  | zero => omega
  | succ fuel ih =>
      unfold growModulus
      by_cases h : multiplier m = 1
      · rw [if_pos h]
        obtain ⟨hget, hmod⟩ := getA_mod (m := m + 1) (by omega)
        rw [hget, Option.bind_some, hmod]
        have hne : ¬ 8 ∣ m := fun h8 => multiplier_ne_one_of_eight (by omega) h8 h
        by_cases h8 : 8 ∣ m + 1
        · refine ⟨m + 1, ?_, by omega, multiplier_ne_one_of_eight (by omega) h8⟩
          have : 0 < fuel := by omega
          obtain ⟨fuel, rfl⟩ := Nat.exists_eq_succ_of_ne_zero this.ne'
          unfold growModulus
          rw [if_neg (multiplier_ne_one_of_eight (by omega) h8)]
        · obtain ⟨m', heq, hle, hne'⟩ := ih (m := m + 1) (by omega) (by omega)
          exact ⟨m', heq, by omega, hne'⟩
      · exact ⟨m, by rw [if_neg h], le_rfl, h⟩

theorem multiplier_pos {m : Nat} (hm : 2 ≤ m) : 1 ≤ multiplier m := by
  rw [Nat.one_le_iff_ne_zero]
  intro h0
  have hp := Nat.minFac_prime (n := m) (by omega)
  have hmem : m.minFac ∈ m.primeFactors :=
    Nat.mem_primeFactors.mpr ⟨hp, Nat.minFac_dvd m, by omega⟩
  have hd : m.minFac ∣ fourFactor m * (∏ p ∈ m.primeFactors, p) + 1 :=
    (Nat.minFac_dvd m).trans (Nat.dvd_of_mod_eq_zero h0)
  have hd' : m.minFac ∣ fourFactor m * ∏ p ∈ m.primeFactors, p :=
    Dvd.dvd.mul_left (Finset.dvd_prod_of_mem _ hmem) _
  exact hp.one_lt.ne' (Nat.dvd_one.mp ((Nat.dvd_add_right hd').mp hd))

/-- What divides both the modulus and the product divides the multiplier less one. -/
theorem dvd_multiplier_sub_one {m d : Nat} (hm : 2 ≤ m) (hdm : d ∣ m)
    (hd : d ∣ fourFactor m * ∏ p ∈ m.primeFactors, p) : d ∣ multiplier m - 1 := by
  have h1 : 1 ≡ multiplier m [MOD d] := by
    have hmod : multiplier m ≡ fourFactor m * (∏ p ∈ m.primeFactors, p) + 1 [MOD d] :=
      (Nat.mod_modEq _ _).of_dvd hdm
    refine (hmod.trans ?_).symm
    have := (Nat.modEq_zero_iff_dvd.mpr hd).add_right 1
    simpa using this
  exact (Nat.modEq_iff_dvd' (multiplier_pos hm)).mp h1

/-- A prime increment that divides the modulus makes the multiplier trivial. -/
theorem multiplier_eq_one_of_dvd {m c : Nat} (hm : 3 ≤ m) (hc : c.Prime) (hlow : 3 * m < 8 * c)
    (hd : c ∣ m) : multiplier m = 1 := by
  obtain ⟨t, rfl⟩ := hd
  have ht : t < 3 := by
    by_contra h
    have : c * 3 ≤ c * t := Nat.mul_le_mul_left c (by omega)
    omega
  have hm1 : (c * t + 1) % (c * t) = 1 := by
    rw [Nat.add_mod_left]
    exact Nat.mod_eq_of_lt (by omega)
  have hcases : t = 1 ∨ t = 2 := by
    rcases t with _ | _ | _ | t
    · omega
    · exact .inl rfl
    · exact .inr rfl
    · omega
  unfold multiplier
  rcases hcases with rfl | rfl
  · -- the modulus is the prime itself
    rw [Nat.mul_one] at hm hm1 ⊢
    have h4 : ¬ 4 ∣ c := fun h => by
      have h2 : 2 ∣ c := (by norm_num : 2 ∣ 4).trans h
      have := (Nat.prime_dvd_prime_iff_eq Nat.prime_two hc).mp h2
      omega
    rw [fourFactor, if_neg h4, hc.primeFactors, Finset.prod_singleton, Nat.one_mul, hm1]
  · by_cases hc2 : c = 2
    · subst hc2
      have hpf : (2 * 2 : Nat).primeFactors = {2} := by
        rw [← pow_two, Nat.primeFactors_pow _ (by norm_num), Nat.prime_two.primeFactors]
      rw [hpf, Finset.prod_singleton]
      decide
    · have h4 : ¬ 4 ∣ c * 2 := fun h => by
        have h2 : 2 ∣ c := by omega
        exact hc2 ((Nat.prime_dvd_prime_iff_eq Nat.prime_two hc).mp h2).symm
      have hpf : (c * 2).primeFactors = {c, 2} := by
        rw [Nat.primeFactors_mul hc.ne_zero (by norm_num), hc.primeFactors,
          Nat.prime_two.primeFactors]
        rfl
      rw [fourFactor, if_neg h4, hpf, Finset.prod_pair hc2, Nat.one_mul, hm1]

/-- The constructor's multiplier and increment have a full period. -/
theorem fullPeriod_of_ne_one {m : Nat} (hm : 3 ≤ m) (hne : multiplier m ≠ 1) :
    Lcg.FullPeriod (multiplier m) (getC m) m := by
  obtain ⟨hprime, hlow, -⟩ := getC_spec hm
  refine ⟨by omega, multiplier_pos (by omega), ?_, ?_, ?_⟩
  · rw [hprime.coprime_iff_not_dvd]
    exact fun hd => hne (multiplier_eq_one_of_dvd hm hprime hlow hd)
  · intro p hp hpm
    have hmem : p ∈ m.primeFactors := Nat.mem_primeFactors.mpr ⟨hp, hpm, by omega⟩
    exact dvd_multiplier_sub_one (by omega) hpm (Dvd.dvd.mul_left (dvd_prod_of_mem _ hmem) _)
  · intro h4
    refine dvd_multiplier_sub_one (by omega) h4 ?_
    have h2 : 2 ∈ m.primeFactors :=
      Nat.mem_primeFactors.mpr ⟨Nat.prime_two, (by norm_num : 2 ∣ 4).trans h4, by omega⟩
    rw [fourFactor, if_pos h4]
    exact mul_dvd_mul_left 2 (dvd_prod_of_mem _ h2)

/-- **The constructor.** It always ends, with a window inside the modulus and a generator of
full period. -/
theorem chooseGenerator_spec {q : Nat} (hq : 1 ≤ q) :
    ∃ P, chooseGenerator q = some P ∧ P.qSize = q ∧ q ≤ P.modlength ∧
      Lcg.FullPeriod P.a P.c P.modlength ∧ (2 ≤ P.a ∨ P.modlength ≤ 2) := by
  unfold chooseGenerator
  by_cases h3 : q < 3
  · refine ⟨_, if_pos h3, rfl, le_rfl, ⟨hq, le_rfl, Nat.coprime_one_left _, ?_, ?_⟩, ?_⟩
    · simp
    · simp
    · exact .inr (by omega : q ≤ 2)
  · rw [if_neg h3]
    obtain ⟨hget, hmod⟩ := getA_mod (m := q) (by omega)
    obtain ⟨m, hgrow, hle, hne⟩ := growModulus_spec 9 (m := q) (by omega) (by omega)
    have hpos := multiplier_pos (m := m) (by omega)
    refine ⟨⟨q, multiplier m, getC m, m⟩, ?_, rfl, hle, fullPeriod_of_ne_one (by omega) hne,
      .inl (by omega : 2 ≤ multiplier m)⟩
    simp [hget, hmod, hgrow]

end StressAppTest.FineLock
