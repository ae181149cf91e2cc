import Mathlib.Data.BitVec
import Mathlib.Data.Finset.Card
import Mathlib.Data.Nat.Prime.Basic
import Mathlib.Dynamics.PeriodicPts.Lemmas
import Mathlib.Order.Interval.Finset.Nat

/-!
# Shift registers with feedback

`step poly s` shifts the register `s` right by one and adds `poly` when the bit that leaves is one.
Exclusive or is the addition of a vector space over two elements, and `step` is linear in it.

The register `top`, with only the top bit, generates everything: `w` steps of it run through all the
bits (`combine_top`). So a linear map that commutes with `step` is known from its value at `top`
(`eq_combine`), and any number of steps is a combination of the first `w` (`iterate_eq_combine`). This
is the product of polynomials modulo the polynomial of the register, and it makes `2 ^ w` steps the
work of `w` squarings (`power`, and `powerNat` for evaluation on numbers).

A register has the full period `2 ^ w - 1` when it returns to `top` after that many steps, and not
after a prime fraction of them (`full_period`).
-/

namespace ShiftRegister

open Function

/-! ## Periods -/

section Period

variable {α : Type*} {f : α → α} {x : α} {n : Nat}

/-- A period of which no prime fraction is one is the least. -/
theorem minimalPeriod_eq_of_prime (h : IsPeriodicPt f n x)
    (hprime : ∀ p, p.Prime → p ∣ n → ¬ IsPeriodicPt f (n / p) x) : minimalPeriod f x = n := by
  obtain ⟨a, ha⟩ := h.minimalPeriod_dvd
  by_contra hne
  have ha1 : a ≠ 1 := by
    rintro rfl
    exact hne (by rw [ha, Nat.mul_one])
  have hdvd : a.minFac ∣ n := (Nat.minFac_dvd a).trans ⟨_, by rw [ha, Nat.mul_comm]⟩
  refine hprime a.minFac (Nat.minFac_prime ha1) hdvd ?_
  rw [isPeriodicPt_iff_minimalPeriod_dvd, Nat.dvd_div_iff_mul_dvd hdvd, ha, Nat.mul_comm]
  exact Nat.mul_dvd_mul_left _ (Nat.minFac_dvd a)

end Period

/-! ## The register -/

variable {w : Nat}

/-- A bit times a register. -/
def gate (b : Bool) (v : BitVec w) : BitVec w := if b then v else 0

@[simp]
theorem gate_zero (b : Bool) : gate b (0 : BitVec w) = 0 := by cases b <;> rfl

theorem gate_bit_xor (b c : Bool) (v : BitVec w) : gate (b ^^ c) v = gate b v ^^^ gate c v := by
  cases b <;> cases c <;> simp [gate]

theorem gate_xor (b : Bool) (u v : BitVec w) : gate b (u ^^^ v) = gate b u ^^^ gate b v := by
  cases b <;> simp [gate]

variable (poly : BitVec w)

/-- One step: the register is shifted right, and the bit that leaves it is fed back through `poly`. -/
def step (s : BitVec w) : BitVec w := (s >>> 1) ^^^ gate (s.getLsbD 0) poly

/-- The register with only the top bit. -/
def top : BitVec w := BitVec.twoPow w (w - 1)

theorem getLsbD_gate_top (b : Bool) {i : Nat} (hi : i < w) :
    (gate b (top : BitVec w)).getLsbD i = (decide (i = w - 1) && b) := by
  cases b with
  | false => simp [gate]
  | true =>
      simp only [gate, if_true, top, BitVec.getLsbD_twoPow, Bool.and_true]
      rw [decide_eq_true (by omega : w - 1 < w), Bool.true_and, decide_eq_decide]
      exact eq_comm

@[simp]
theorem step_zero : step poly 0 = 0 := by simp [step, gate]

theorem step_xor (u v : BitVec w) : step poly (u ^^^ v) = step poly u ^^^ step poly v := by
  simp only [step, BitVec.ushiftRight_xor_distrib, BitVec.getLsbD_xor, gate_bit_xor]
  ac_rfl

theorem step_gate (b : Bool) (v : BitVec w) : step poly (gate b v) = gate b (step poly v) := by
  cases b with
  | false => exact step_zero poly
  | true => rfl

/-- The top bit of `poly` shows in the next register which bit has left. -/
theorem step_injective (hpoly : poly.getLsbD (w - 1) = true) : Injective (step poly) := by
  intro u v h
  have hbit (i : Nat) : (step poly u).getLsbD i = (step poly v).getLsbD i := by rw [h]
  simp only [step, BitVec.getLsbD_xor, BitVec.getLsbD_ushiftRight] at hbit
  have hlast : u.getLsbD 0 = v.getLsbD 0 := by
    have htop := hbit (w - 1)
    rw [BitVec.getLsbD_of_ge u (1 + (w - 1)) (by omega),
      BitVec.getLsbD_of_ge v (1 + (w - 1)) (by omega)] at htop
    cases hu : u.getLsbD 0 <;> cases hv : v.getLsbD 0 <;> simp [hu, hv, gate, hpoly] at htop ⊢
  apply BitVec.eq_of_getLsbD_eq
  intro i _
  cases i with
  | zero => exact hlast
  | succ i =>
      have hi := hbit i
      rw [hlast, Bool.xor_left_inj, Nat.add_comm 1 i] at hi
      exact hi

theorem step_ne_zero (hpoly : poly.getLsbD (w - 1) = true) {s : BitVec w} (hs : s ≠ 0) :
    step poly s ≠ 0 := by
  intro h
  exact hs (step_injective poly hpoly (h.trans (step_zero poly).symm))

/-! ## Combinations of steps -/

/-- The sum of the `step^[i] v` over the bits of `u`: the bits below `j`, the highest of them first. -/
def combine (u v : BitVec w) : Nat → BitVec w
  | 0 => 0
  | j + 1 => step poly (combine u v j) ^^^ gate (u.getLsbD j) v

/-- A linear map that commutes with the steps commutes with their combinations. -/
theorem map_combine {F : BitVec w → BitVec w} (hzero : F 0 = 0)
    (hxor : ∀ u v, F (u ^^^ v) = F u ^^^ F v) (hstep : ∀ s, F (step poly s) = step poly (F s))
    (u v : BitVec w) (j : Nat) : F (combine poly u v j) = combine poly u (F v) j := by
  induction j with
  | zero => exact hzero
  | succ j ih =>
      have hgate : F (gate (u.getLsbD j) v) = gate (u.getLsbD j) (F v) := by
        cases u.getLsbD j with
        | false => exact hzero
        | true => rfl
      rw [combine, hxor, hstep, ih, hgate, combine]

/-- The combination of `top` by the low `j` bits of `u` has them in the top places. -/
theorem combine_top_eq (u : BitVec w) {j : Nat} (hj : j ≤ w) :
    combine poly u top j = u <<< (w - j) := by
  induction j with
  | zero =>
      rw [combine, Nat.sub_zero, BitVec.shiftLeft_eq_zero le_rfl]
      rfl
  | succ j ih =>
      -- the bit that leaves is below the bits of `u`
      have hlast : (u <<< (w - j)).getLsbD 0 = false := by
        rw [BitVec.getLsbD_shiftLeft, decide_eq_true (by omega : 0 < w - j)]
        simp
      have hnone (s : BitVec w) : s ^^^ gate false poly = s := BitVec.xor_zero
      rw [combine, ih (by omega), step, hlast, hnone]
      apply BitVec.eq_of_getLsbD_eq
      intro i hi
      rw [BitVec.getLsbD_xor, BitVec.getLsbD_ushiftRight, BitVec.getLsbD_shiftLeft,
        BitVec.getLsbD_shiftLeft, decide_eq_true hi, getLsbD_gate_top _ hi, Nat.add_comm 1 i,
        show i + 1 - (w - j) = i - (w - (j + 1)) by omega]
      by_cases hlow : i < w - (j + 1)
      · have h1 : i + 1 < w - j := by omega
        simp [hlow, h1, show i ≠ w - 1 by omega]
      · by_cases htop : i = w - 1
        · have hbit : i - (w - (j + 1)) = j := by omega
          simp [hlow, hbit, eq_true htop, show ¬ i + 1 < w by omega]
        · simp [hlow, htop, show ¬ i + 1 < w - j by omega, show i + 1 < w by omega]

/-- `top` generates all registers. -/
theorem combine_top (u : BitVec w) : combine poly u top w = u := by
  rw [combine_top_eq poly u le_rfl, Nat.sub_self, BitVec.shiftLeft_zero]

/-- A linear map that commutes with the steps is known from its value at `top`. -/
theorem eq_combine {F : BitVec w → BitVec w} (hzero : F 0 = 0)
    (hxor : ∀ u v, F (u ^^^ v) = F u ^^^ F v) (hstep : ∀ s, F (step poly s) = step poly (F s))
    (s : BitVec w) : F s = combine poly s (F top) w := by
  conv_lhs => rw [← combine_top poly s]
  exact map_combine poly hzero hxor hstep s top w

@[simp]
theorem iterate_step_zero (k : Nat) : (step poly)^[k] 0 = 0 := iterate_fixed (step_zero poly) k

theorem iterate_step_xor (k : Nat) (u v : BitVec w) :
    (step poly)^[k] (u ^^^ v) = (step poly)^[k] u ^^^ (step poly)^[k] v := by
  induction k generalizing u v with
  | zero => rfl
  | succ k ih => rw [iterate_succ_apply, step_xor, ih, ← iterate_succ_apply, ← iterate_succ_apply]

/-- Any number of steps is a combination of the first ones. -/
theorem iterate_eq_combine (k : Nat) (s : BitVec w) :
    (step poly)^[k] s = combine poly s ((step poly)^[k] top) w := by
  refine eq_combine poly (iterate_step_zero poly k) (iterate_step_xor poly k) ?_ s
  intro s
  rw [← iterate_succ_apply (step poly), iterate_succ_apply']

theorem iterate_add_top (j k : Nat) : (step poly)^[j + k] top =
    combine poly ((step poly)^[k] top) ((step poly)^[j] top) w := by
  rw [iterate_add_apply]
  exact iterate_eq_combine poly j _

/-- `step^[n] top` for a number `n` of `bits` bits, by squaring. -/
def power : Nat → Nat → BitVec w
  | 0, _ => top
  | bits + 1, n =>
    let square := combine poly (power bits (n / 2)) (power bits (n / 2)) w
    if n % 2 = 1 then step poly square else square

theorem power_eq {bits n : Nat} (hn : n < 2 ^ bits) : power poly bits n = (step poly)^[n] top := by
  induction bits generalizing n with
  | zero =>
      have hzero : n = 0 := by simpa using hn
      rw [hzero]
      rfl
  | succ bits ih =>
      have hsquare : combine poly (power poly bits (n / 2)) (power poly bits (n / 2)) w =
          (step poly)^[n / 2 + n / 2] top := by
        rw [ih (by omega), iterate_add_top]
      simp only [power, hsquare]
      split
      · rw [← iterate_succ_apply' (step poly)]
        congr 1
        omega
      · congr 1
        omega

/-! ## Evaluation on numbers -/

def stepNat (p s : Nat) : Nat := (s >>> 1) ^^^ (s % 2 * p)

def combineNat (p u v : Nat) : Nat → Nat
  | 0 => 0
  | j + 1 => stepNat p (combineNat p u v j) ^^^ ((u >>> j) % 2 * v)

/-- `power` on numbers, for registers of `w` bits. -/
def powerNat (w p : Nat) : Nat → Nat → Nat
  | 0, _ => 2 ^ (w - 1) % 2 ^ w
  | bits + 1, n =>
    let square := combineNat p (powerNat w p bits (n / 2)) (powerNat w p bits (n / 2)) w
    if n % 2 = 1 then stepNat p square else square

theorem toNat_gate (s v : BitVec w) (j : Nat) :
    (gate (s.getLsbD j) v).toNat = (s.toNat >>> j) % 2 * v.toNat := by
  have hbit : (s.toNat >>> j) % 2 = (s.getLsbD j).toNat := by
    rw [BitVec.getLsbD, Nat.toNat_testBit, Nat.shiftRight_eq_div_pow]
  rw [hbit]
  cases s.getLsbD j <;> simp [gate]

theorem toNat_step (s : BitVec w) : (step poly s).toNat = stepNat poly.toNat s.toNat := by
  rw [step, BitVec.toNat_xor, BitVec.toNat_ushiftRight, toNat_gate, Nat.shiftRight_zero, stepNat]

theorem toNat_combine (u v : BitVec w) (j : Nat) :
    (combine poly u v j).toNat = combineNat poly.toNat u.toNat v.toNat j := by
  induction j with
  | zero => rfl
  | succ j ih => rw [combine, BitVec.toNat_xor, toNat_step, ih, toNat_gate, combineNat]

theorem toNat_power (bits n : Nat) :
    (power poly bits n).toNat = powerNat w poly.toNat bits n := by
  induction bits generalizing n with
  | zero => rw [power, top, BitVec.toNat_twoPow, powerNat]
  | succ bits ih =>
      simp only [power, powerNat]
      split
      · rw [toNat_step, toNat_combine, ih]
      · rw [toNat_combine, ih]

/-! ## Registers of full period -/

theorem iterate_step_ne_zero (hpoly : poly.getLsbD (w - 1) = true) {s : BitVec w} (hs : s ≠ 0)
    (k : Nat) : (step poly)^[k] s ≠ 0 := by
  induction k with
  | zero => exact hs
  | succ k ih =>
      rw [iterate_succ_apply']
      exact step_ne_zero poly hpoly ih

/-- An orbit of `2 ^ w - 1` registers is all of them but zero. -/
theorem exists_iterate (hpoly : poly.getLsbD (w - 1) = true) {s t : BitVec w} (hs : s ≠ 0)
    (ht : t ≠ 0) (h : minimalPeriod (step poly) s = 2 ^ w - 1) : ∃ k, (step poly)^[k] s = t := by
  have hpos {u : BitVec w} (hu : u ≠ 0) : u.toNat ∈ Finset.Ico 1 (2 ^ w) := by
    rw [Finset.mem_Ico]
    exact ⟨Nat.pos_of_ne_zero fun h0 => hu (BitVec.eq_of_toNat_eq h0), u.isLt⟩
  have hsurj : Set.SurjOn (fun k => ((step poly)^[k] s).toNat) (Finset.range (2 ^ w - 1))
      (Finset.Ico 1 (2 ^ w)) := by
    apply Finset.surjOn_of_injOn_of_card_le
    · exact fun k _ => hpos (iterate_step_ne_zero poly hpoly hs k)
    · intro j hj k hk heq
      rw [Finset.coe_range, ← h] at hj hk
      exact iterate_injOn_Iio_minimalPeriod hj hk (BitVec.eq_of_toNat_eq heq)
    · simp
  obtain ⟨k, -, hk⟩ := hsurj (hpos ht)
  exact ⟨k, BitVec.eq_of_toNat_eq hk⟩

/-- **Full period.** The register returns to `top` after `2 ^ w - 1` steps, and not after a prime
fraction of them: then every orbit but that of zero consists of all registers but zero. -/
theorem full_period (hpoly : poly.getLsbD (w - 1) = true)
    (hreturn : power poly w (2 ^ w - 1) = top)
    (hprime : ∀ p, p.Prime → p ∣ 2 ^ w - 1 → power poly w ((2 ^ w - 1) / p) ≠ top)
    {s : BitVec w} (hs : s ≠ 0) : minimalPeriod (step poly) s = 2 ^ w - 1 ∧
      Set.range (fun k => (step poly)^[k] s) = {t | t ≠ 0} := by
  have hw : 0 < w := by
    by_contra h0
    have hw0 : w = 0 := by omega
    subst hw0
    exact hs BitVec.of_length_zero
  have hlt (n : Nat) (hn : n ≤ 2 ^ w - 1) : n < 2 ^ w := by
    have := Nat.two_pow_pos w
    omega
  have htop : (top : BitVec w) ≠ 0 := by
    intro h0
    have hbit : (top : BitVec w).getLsbD (w - 1) = false := by rw [h0]; exact BitVec.getLsbD_zero
    simp [top, hw] at hbit
  have hperiod : minimalPeriod (step poly) (top : BitVec w) = 2 ^ w - 1 := by
    apply minimalPeriod_eq_of_prime
    · rw [IsPeriodicPt, IsFixedPt, ← power_eq poly (hlt _ le_rfl), hreturn]
    · intro p hp hdvd
      rw [IsPeriodicPt, IsFixedPt, ← power_eq poly (hlt _ (Nat.div_le_self _ p))]
      exact hprime p hp hdvd
  have hall : minimalPeriod (step poly) s = 2 ^ w - 1 := by
    obtain ⟨k, rfl⟩ := exists_iterate poly hpoly htop hs hperiod
    have hmem : (top : BitVec w) ∈ periodicPts (step poly) := by
      rw [← minimalPeriod_pos_iff_mem_periodicPts, hperiod]
      have : 2 ^ 1 ≤ 2 ^ w := Nat.pow_le_pow_right (by decide) hw
      omega
    rw [minimalPeriod_apply_iterate hmem, hperiod]
  refine ⟨hall, Set.ext fun t => ?_⟩
  constructor
  · rintro ⟨k, rfl⟩
    exact iterate_step_ne_zero poly hpoly hs k
  · exact fun ht => exists_iterate poly hpoly hs ht hall

end ShiftRegister
