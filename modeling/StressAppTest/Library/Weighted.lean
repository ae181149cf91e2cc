import Mathlib.Algebra.BigOperators.Group.List.Basic
import Mathlib.Algebra.GroupWithZero.Nat
import Mathlib.Order.Interval.Finset.Nat

/-!
# Weighted choice

The numbers below the sum of a list of weights, split into one interval for each entry. Entry `i`
owns as many numbers as its weight says, those after the numbers of the entries before it.
-/

namespace StressAppTest.Weighted

/-- The entry that owns `r`. -/
def owner : List Nat → Nat → Option Nat
  | [], _ => none
  | w :: ws, r => if r < w then some 0 else (owner ws (r - w)).map (· + 1)

theorem owner_eq_some_iff {ws : List Nat} {r i : Nat} : owner ws r = some i ↔
    ∃ w, ws[i]? = some w ∧ (ws.take i).sum ≤ r ∧ r < (ws.take i).sum + w := by
  induction ws generalizing r i with
  | nil => simp [owner]
  | cons w ws ih =>
      rw [owner]
      cases i with
      | zero =>
          split
          · next hlt => simpa using hlt
          · next hge => simpa using hge
      | succ i =>
          simp only [List.getElem?_cons_succ, List.take_succ_cons, List.sum_cons]
          split
          · next hlt =>
            refine iff_of_false (by simp) ?_
            rintro ⟨v, -, hle, -⟩
            omega
          · next hge =>
            rw [Option.map_eq_some_iff]
            constructor
            · rintro ⟨j, hj, hji⟩
              obtain rfl : j = i := by omega
              obtain ⟨v, hv, hle, hlt⟩ := ih.mp hj
              exact ⟨v, hv, by omega, by omega⟩
            · rintro ⟨v, hv, hle, hlt⟩
              exact ⟨i, ih.mpr ⟨v, hv, by omega, by omega⟩, rfl⟩

/-- An entry that owns a number has a positive weight. -/
theorem weight_pos_of_owner {ws : List Nat} {r i w : Nat} (h : owner ws r = some i)
    (hw : ws[i]? = some w) : 0 < w := by
  obtain ⟨v, hv, hle, hlt⟩ := owner_eq_some_iff.mp h
  rw [hw, Option.some.injEq] at hv
  omega

/-- Every number below the sum has an owner. -/
theorem exists_owner {ws : List Nat} {r : Nat} (h : r < ws.sum) : ∃ i, owner ws r = some i := by
  induction ws generalizing r with
  | nil => exact absurd h (Nat.not_lt_zero r)
  | cons w ws ih =>
      rw [List.sum_cons] at h
      rw [owner]
      by_cases hlt : r < w
      · exact ⟨0, if_pos hlt⟩
      · obtain ⟨i, hi⟩ := ih (r := r - w) (by omega)
        exact ⟨i + 1, by rw [if_neg hlt, hi]; rfl⟩

theorem take_sum_add_le {ws : List Nat} {i w : Nat} (h : ws[i]? = some w) :
    (ws.take i).sum + w ≤ ws.sum := by
  obtain ⟨hi, rfl⟩ := List.getElem?_eq_some_iff.mp h
  rw [← List.sum_take_succ ws i hi]
  calc (ws.take (i + 1)).sum ≤ (ws.take (i + 1)).sum + (ws.drop (i + 1)).sum := Nat.le_add_right _ _
    _ = ws.sum := by rw [← List.sum_append, List.take_append_drop]

/-- An entry owns exactly as many numbers below the sum as its weight says. -/
theorem card_owner {ws : List Nat} {i w : Nat} (h : ws[i]? = some w) :
    ((Finset.range ws.sum).filter fun r => owner ws r = some i).card = w := by
  have hle := take_sum_add_le h
  have hset : ((Finset.range ws.sum).filter fun r => owner ws r = some i) =
      Finset.Ico (ws.take i).sum ((ws.take i).sum + w) := by
    ext r
    rw [Finset.mem_filter, Finset.mem_range, Finset.mem_Ico, owner_eq_some_iff]
    constructor
    · rintro ⟨-, v, hv, hrange⟩
      rw [h, Option.some.injEq] at hv
      rw [hv]
      exact hrange
    · intro hrange
      exact ⟨by omega, w, h, hrange⟩
  rw [hset, Nat.card_Ico, Nat.add_sub_cancel_left]

end StressAppTest.Weighted
