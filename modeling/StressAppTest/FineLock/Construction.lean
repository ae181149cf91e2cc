import StressAppTest.FineLock.Generator

/-!
# The construction of the generator (`finelock_queue.cc`)

What `chooseGenerator` ends with. The search for a modulus stops at the first one with a nontrivial
multiplier, and a multiple of eight has one, so it does not pass the next multiple of eight
(`growModulus_le`). There the multiplier and the increment fulfil the conditions of a full period one
by one (`generator_construction`).

The numbers are `int64` in the source. `getA_le` bounds the variables of `getA`, in all passes of its
loop, by the modulus; the largest number of the construction is then the `3 * m` of `getC`.
-/

namespace StressAppTest.FineLock

open Finset

/-! ## The range of the variables -/

/-- A multiple of four keeps one factor two besides those of the product. -/
theorem fourFactor_mul_le {m : Nat} (hm : 0 < m) :
    fourFactor m * ∏ p ∈ m.primeFactors, p ≤ m := by
  unfold fourFactor
  split
  · next h4 =>
    obtain ⟨t, rfl⟩ := h4
    have hle : (∏ p ∈ (4 * t).primeFactors, p) ≤ 2 * t := by
      rw [show 4 = 2 ^ (1 + 1) by norm_num, primeFactors_two_pow_mul 1 (by omega)]
      exact Nat.le_of_dvd (by omega) (Nat.prod_primeFactors_dvd _)
    omega
  · rw [Nat.one_mul]
    exact Nat.le_of_dvd hm (Nat.prod_primeFactors_dvd m)

theorem DividedOut.le {m j remaining a : Nat} (hm : 0 < m)
    (h : DividedOut m (fourFactor m) j remaining a) : remaining ≤ m ∧ a ≤ m := by
  refine ⟨Nat.le_of_dvd hm h.dvd, ?_⟩
  have hsub : (∏ p ∈ m.primeFactors with p ≤ j, p) ≤ ∏ p ∈ m.primeFactors, p := by
    apply Finset.prod_le_prod_of_subset_of_one_le' (filter_subset _ _)
    exact fun p hp _ => Nat.pos_of_mem_primeFactors hp
  rw [h.prod]
  exact (Nat.mul_le_mul_left _ hsub).trans (fourFactor_mul_le hm)

/-- The variables of `getA` stay below the modulus, in every pass. -/
theorem getA_le {m k : Nat} (hm : 2 ≤ m) :
    ∃ t, forUpTo k (fun k s => s.bind (getABody m (k + 2)))
      (some (m, if m / 4 * 4 = m then 2 else 1)) = some t ∧ t.1 ≤ m ∧ t.2 ≤ m := by
  obtain ⟨t, hloop, hinv⟩ := getA_loop (k := k) hm
  exact ⟨t, hloop, hinv.le (by omega)⟩

/-! ## The modulus -/

/-- The search never passes a multiple of eight. -/
theorem growModulus_le {fuel k m a' m' : Nat} (hm : 2 ≤ m) (hk : m ≤ 8 * k)
    (h : growModulus fuel (multiplier m) m = some (a', m')) : m' ≤ 8 * k := by
  induction fuel generalizing m with
  | zero => simp [growModulus] at h
  | succ fuel ih =>
      unfold growModulus at h
      by_cases h1 : multiplier m = 1
      · obtain ⟨hget, hmod⟩ := getA_mod (m := m + 1) (by omega)
        rw [if_pos h1, hget, Option.bind_some, hmod] at h
        have hne : m ≠ 8 * k := by
          rintro rfl
          exact multiplier_ne_one_of_eight (by omega) (Nat.dvd_mul_right 8 k) h1
        exact ih (by omega) (by omega) h
      · rw [if_neg h1] at h
        obtain ⟨-, rfl⟩ := Prod.mk.inj (Option.some.inj h)
        exact hk

/-- **The construction.** For every queue from three pages on the constructor ends, with a modulus
that is at most the next multiple of eight, a multiplier between one and the modulus that is one
modulo its prime factors and modulo a factor four, and a prime increment that does not divide it. -/
theorem generator_construction {length : Nat} (hlength : 3 ≤ length) :
    ∃ P, chooseGenerator length = some P ∧ P.qSize = length ∧ length ≤ P.modlength ∧
      (∀ k, length ≤ 8 * k → P.modlength ≤ 8 * k) ∧
      getA P.modlength = some P.a ∧ 1 < P.a ∧ P.a < P.modlength ∧
      (∀ p, p.Prime → p ∣ P.modlength → p ∣ P.a - 1) ∧ (4 ∣ P.modlength → 4 ∣ P.a - 1) ∧
      getC P.modlength = P.c ∧ P.c.Prime ∧ 1 < P.c ∧ P.c ≤ 3 * P.modlength / 4 + 1 ∧
      ¬ P.c ∣ P.modlength := by
  obtain ⟨hget, hmod⟩ := getA_mod (m := length) (by omega)
  obtain ⟨m, hgrow, hle, hne⟩ := growModulus_spec 9 (m := length) (by omega) (by omega)
  have hchoose : chooseGenerator length = some ⟨length, multiplier m, getC m, m⟩ := by
    rw [chooseGenerator, if_neg (by omega)]
    simp [hget, hmod, hgrow]
  have hperiod := fullPeriod_of_ne_one (m := m) (by omega) hne
  obtain ⟨hprime, -, hstart⟩ := getC_spec (m := m) (by omega)
  have hpos := multiplier_pos (m := m) (by omega)
  refine ⟨_, hchoose, rfl, hle, fun k hk => growModulus_le (by omega) hk hgrow, ?_⟩
  refine ⟨(getA_mod (m := m) (by omega)).1, Nat.lt_of_le_of_ne hpos hne.symm, ?_, hperiod.prime_dvd,
    hperiod.four_dvd, rfl, hprime, hprime.one_lt, hstart, ?_⟩
  · exact Nat.mod_lt _ (show 0 < m by omega)
  · exact (Nat.Prime.coprime_iff_not_dvd hprime).mp hperiod.coprime

/-- Three pages take the modulus eight: three to seven have a trivial multiplier. -/
theorem generator_construction_three :
    chooseGenerator 3 = some ⟨3, 5, 7, 8⟩ ∧ 8 ≤ 8 * 1 ∧ 1 < 5 ∧ ¬ 7 ∣ 8 := by
  have hthree : chooseGenerator 3 = some ⟨3, 5, 7, 8⟩ := by decide
  obtain ⟨P, hchoose, -, -, hle, -, hone, -, -, -, -, -, -, -, hndvd⟩ :=
    generator_construction (le_refl 3)
  have hP : P = ⟨3, 5, 7, 8⟩ := Option.some.inj (hchoose.symm.trans hthree)
  subst hP
  exact ⟨hthree, hle 1 (by decide), hone, hndvd⟩

end StressAppTest.FineLock
