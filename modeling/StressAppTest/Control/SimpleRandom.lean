import Mathlib.Algebra.BigOperators.Group.List.Basic
import Mathlib.Data.FinEnum
import Mathlib.Data.List.Prime
import Mathlib.Tactic.NormNum.Prime
import StressAppTest.Control.CacheCoherency
import StressAppTest.Library.ShiftRegister

/-!
# The generator of the cache coherency test (`SimpleRandom`, `worker.cc`)

`SimpleRandom` is a shift register of 64 bits that shifts right, with the feedback
`kRandomPolynomial`. The comment there promises a cycle of period `2 ^ 64 - 1`. In a register that
shifts right the top bit is the constant coefficient, so that the feedback of the code is the
polynomial `x ^ 64 + x ^ 4 + x ^ 3 + x + 1`, the one of the comment read backwards.

The period needs the seven prime factors of `2 ^ 64 - 1`: the register returns after `2 ^ 64 - 1`
steps (`powerNat_return`) and after no prime fraction of them (`powerNat_ne`). These are evaluations of
64 squarings each; the rest is `ShiftRegister.full_period`.
-/

namespace StressAppTest.Control.CcTest

open Function ShiftRegister

/-- Minus the low bit is the mask of all bits, or of none. -/
theorem simpleRandom_eq_step : simpleRandom = step kRandomPolynomial := by
  funext seed
  rw [simpleRandom, step, BitVec.ofNat_eq_ofNat, BitVec.and_one_eq_setWidth_ofBool_getLsbD]
  cases seed.getLsbD 0 <;> rfl

/-- The prime factors of `2 ^ 64 - 1`. -/
def periodFactors : List Nat := [3, 5, 17, 257, 641, 65537, 6700417]

theorem mem_periodFactors {p : Nat} (hp : p.Prime) (hdvd : p ∣ 2 ^ 64 - 1) : p ∈ periodFactors := by
  have hprime : ∀ q ∈ periodFactors, q.Prime := by
    simp only [periodFactors, List.forall_mem_cons]
    norm_num
  have hprod : 2 ^ 64 - 1 = periodFactors.prod := by norm_num [periodFactors]
  rw [hprod, hp.prime.dvd_prod_iff] at hdvd
  obtain ⟨q, hq, hpq⟩ := hdvd
  rwa [(Nat.prime_dvd_prime_iff_eq hp (hprime q hq)).mp hpq]

theorem powerNat_return : powerNat 64 kRandomPolynomial.toNat 64 (2 ^ 64 - 1) = 2 ^ 63 := by
  decide +kernel

theorem powerNat_ne : ∀ p ∈ periodFactors,
    powerNat 64 kRandomPolynomial.toNat 64 ((2 ^ 64 - 1) / p) ≠ 2 ^ 63 := by
  decide +kernel

/-- **The period.** `SimpleRandom` permutes the 64-bit values, zero is alone in its cycle, and all
the other values are in one cycle of `2 ^ 64 - 1`. -/
theorem simpleRandom_period :
    Bijective simpleRandom ∧ simpleRandom 0 = 0 ∧ (∀ seed, seed ≠ 0 → simpleRandom seed ≠ 0) ∧
    ∀ seed, seed ≠ 0 → minimalPeriod simpleRandom seed = 2 ^ 64 - 1 ∧
      Set.range (fun k => simpleRandom^[k] seed) = {r | r ≠ 0} := by
  have htop : (top : BitVec 64).toNat = 2 ^ 63 := by rw [top, BitVec.toNat_twoPow]; norm_num
  have hpoly : kRandomPolynomial.getLsbD (64 - 1) = true := by decide
  have hreturn : power kRandomPolynomial 64 (2 ^ 64 - 1) = top := by
    apply BitVec.eq_of_toNat_eq
    rw [toNat_power, powerNat_return, htop]
  have hprime (p : Nat) (hp : p.Prime) (hdvd : p ∣ 2 ^ 64 - 1) :
      power kRandomPolynomial 64 ((2 ^ 64 - 1) / p) ≠ top := by
    intro heq
    apply powerNat_ne p (mem_periodFactors hp hdvd)
    rw [← toNat_power, heq, htop]
  rw [simpleRandom_eq_step]
  refine ⟨?_, step_zero _, fun seed hseed => step_ne_zero _ hpoly hseed, ?_⟩
  · exact Finite.injective_iff_bijective.mp (step_injective _ hpoly)
  · exact fun seed hseed => full_period _ hpoly hreturn hprime hseed

theorem simpleRandom_period_one : minimalPeriod simpleRandom 1 = 2 ^ 64 - 1 :=
  (simpleRandom_period.2.2.2 1 (by decide)).1

/-! ## The draws of a thread -/

/-- An access draws once or not at all. -/
theorem advance_r (c : CcTest) (t : Nat) (again : Bool) (mem : Int → BitVec 8) (th : CcThread) :
    (c.advance t again mem th).2.r = th.r ∨ (c.advance t again mem th).2.r = simpleRandom th.r := by
  unfold advance
  split
  · exact Or.inl rfl
  · split
    · exact Or.inr rfl
    · exact Or.inl rfl
  · exact Or.inl rfl
  · exact Or.inl rfl
  · split <;> exact Or.inl rfl
  · exact Or.inl rfl
  · exact Or.inl rfl
  · exact Or.inl rfl

/-- In every run the value of a thread is some iterate of its seed, so that a seed other than zero
never gets to the fixed point. -/
theorem exists_draws {c : CcTest} {s₀ s : CcState c}
    (h : Relation.ReflTransGen (fun s s' => ∃ t, c.CcStep t s s') s₀ s) (t : Fin c.threadCount) :
    ∃ k, (s.thread t).r = simpleRandom^[k] (s₀.thread t).r := by
  induction h with
  | refl => exact ⟨0, rfl⟩
  | tail _ hstep ih =>
      obtain ⟨k, hk⟩ := ih
      obtain ⟨t', again, -, hthread⟩ := hstep
      rw [hthread]
      by_cases heq : t = t'
      · subst heq
        rw [update_self]
        rcases advance_r c t again _ _ with hr | hr
        · exact ⟨k, hr.trans hk⟩
        · exact ⟨k + 1, by rw [hr, hk, iterate_succ_apply']⟩
      · rw [update_of_ne heq]
        exact ⟨k, hk⟩

theorem r_ne_zero {c : CcTest} {s₀ s : CcState c}
    (h : Relation.ReflTransGen (fun s s' => ∃ t, c.CcStep t s s') s₀ s) (t : Fin c.threadCount)
    (hseed : (s₀.thread t).r ≠ 0) : (s.thread t).r ≠ 0 := by
  obtain ⟨k, hk⟩ := exists_draws h t
  rw [hk, simpleRandom_eq_step]
  exact iterate_step_ne_zero _ (by decide) hseed k

end StressAppTest.Control.CcTest
