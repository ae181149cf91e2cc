import Mathlib.Data.Fintype.Card
import Mathlib.Algebra.BigOperators.Group.Finset.Piecewise

/-!
# Counting the processes in a given situation

`tally p f` is the number of processes whose control state satisfies `p`. When one process moves, only
its own contribution changes (`tally_update`).
-/

namespace Tally

variable {κ α : Type*} [Fintype κ]

/-- The number of processes in a situation `p`. -/
def tally (p : α → Bool) (f : κ → α) : Nat := (Finset.univ.filter fun k => p (f k) = true).card

theorem tally_le (p : α → Bool) (f : κ → α) : tally p f ≤ Fintype.card κ := Finset.card_le_univ _

/-- A narrower situation holds of fewer processes. -/
theorem tally_mono {p q : α → Bool} {f : κ → α} (h : ∀ k, p (f k) = true → q (f k) = true) :
    tally p f ≤ tally q f := by
  apply Finset.card_le_card
  intro k hk
  rw [Finset.mem_filter] at hk ⊢
  exact ⟨hk.1, h k hk.2⟩

/-- Two situations that exclude each other, inside of a third one. -/
theorem tally_add_le {p q r : α → Bool} {f : κ → α} (hdisj : ∀ k, p (f k) = true → q (f k) = false)
    (hp : ∀ k, p (f k) = true → r (f k) = true) (hq : ∀ k, q (f k) = true → r (f k) = true) :
    tally p f + tally q f ≤ tally r f := by
  classical
  have hunion : Disjoint (Finset.univ.filter fun k => p (f k) = true)
      (Finset.univ.filter fun k => q (f k) = true) := by
    apply Finset.disjoint_filter.mpr
    intro k _ hpk hqk
    exact absurd (hqk.symm.trans (hdisj k hpk)) (by decide)
  rw [tally, tally, ← Finset.card_union_of_disjoint hunion]
  apply Finset.card_le_card
  intro k hk
  rw [Finset.mem_union, Finset.mem_filter, Finset.mem_filter] at hk
  rw [Finset.mem_filter]
  exact ⟨Finset.mem_univ k, hk.elim (fun h => hp k h.2) fun h => hq k h.2⟩

/-- All processes are in one of two situations. -/
theorem tally_add_eq {p q : α → Bool} {f : κ → α} (h : ∀ k, q (f k) = !p (f k)) :
    tally p f + tally q f = Fintype.card κ := by
  have hnot : (Finset.univ.filter fun k => q (f k) = true) =
      Finset.univ.filter fun k => ¬ p (f k) = true := by
    apply Finset.filter_congr
    intro k _
    rw [h k, Bool.not_eq_true', Bool.not_eq_true]
  rw [tally, tally, hnot, Finset.card_filter_add_card_filter_not, Finset.card_univ]

theorem tally_eq_zero {p : α → Bool} {f : κ → α} (h : ∀ k, p (f k) = false) : tally p f = 0 := by
  apply Finset.card_eq_zero.mpr
  apply Finset.filter_eq_empty_iff.mpr
  intro k _
  rw [h k]
  exact Bool.false_ne_true

theorem tally_congr {p q : α → Bool} {f : κ → α} (h : ∀ k, p (f k) = q (f k)) :
    tally p f = tally q f := by
  apply congrArg Finset.card
  apply Finset.filter_congr
  intro k _
  rw [h k]

variable [DecidableEq κ]

/-- **One process moves.** -/
theorem tally_update (p : α → Bool) (f : κ → α) (k : κ) (a : α) :
    tally p (Function.update f k a) + (if p (f k) then 1 else 0) = tally p f + if p a then 1 else 0 := by
  have hmem : k ∈ (Finset.univ : Finset κ) := Finset.mem_univ k
  have hother : ∀ k' ∈ Finset.univ.erase k,
      (if p (Function.update f k a k') = true then 1 else 0) = if p (f k') = true then 1 else 0 := by
    intro k' hk'
    rw [Function.update_of_ne (Finset.mem_erase.mp hk').1]
  rw [tally, tally, Finset.card_filter, Finset.card_filter, ← Finset.add_sum_erase _ _ hmem,
    ← Finset.add_sum_erase _ (fun k => if p (f k) = true then 1 else 0) hmem,
    Finset.sum_congr rfl hother, Function.update_self]
  omega

end Tally
