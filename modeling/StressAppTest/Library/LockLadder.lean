import Mathlib.Data.Fintype.Card
import Mathlib.Logic.Function.Basic

/-!
# Climbing past locks that are held

Threads try numbered locks in order, and one that finds lock `k` held goes on to lock `k + 1`. A
thread is on rung `k` when it tries lock `k` or holds it. A thread climbs only past another one that
stays behind on its rung, so on rung `k` and above there are never more than `card τ - k` threads
(`Spread`). A rung that somebody is on is below the number of threads (`Spread.lt_card`): with as
many locks as threads, no thread gets past the last one.
-/

namespace LockLadder

variable {τ : Type*} [Fintype τ]

/-- The threads on rung `k` and above. -/
def above (rung : τ → Nat) (k : Nat) : Finset τ := Finset.univ.filter fun t => k ≤ rung t

/-- Every rung that is reached has as many threads below it as it is high. -/
def Spread (rung : τ → Nat) : Prop :=
  ∀ t k, k ≤ rung t → (above rung k).card + k ≤ Fintype.card τ

variable {rung rung' : τ → Nat}

theorem mem_above {k : Nat} {t : τ} : t ∈ above rung k ↔ k ≤ rung t := by
  unfold above
  rw [Finset.mem_filter]
  exact and_iff_right (Finset.mem_univ t)

theorem spread_zero : Spread fun _ : τ => 0 := by
  intro t k hk
  obtain rfl := Nat.le_zero.mp hk
  exact Finset.card_le_univ _

theorem Spread.lt_card (h : Spread rung) (t : τ) : rung t < Fintype.card τ := by
  have hpos : 0 < (above rung (rung t)).card := Finset.card_pos.mpr ⟨t, mem_above.mpr le_rfl⟩
  have hle := h t (rung t) le_rfl
  omega

/-- Threads may go down. -/
theorem Spread.descend (h : Spread rung) (hle : ∀ t, rung' t ≤ rung t) : Spread rung' := by
  intro t k hk
  have hsub : above rung' k ⊆ above rung k := by
    intro u hu
    exact mem_above.mpr ((mem_above.mp hu).trans (hle u))
  have hcard := Finset.card_le_card hsub
  have hold := h t k (hk.trans (hle t))
  omega

/-- **A thread goes up one rung, past another one that is on it.** -/
theorem Spread.climb [DecidableEq τ] (h : Spread rung) {t u : τ} (hne : u ≠ t) (hu : rung u = rung t) :
    Spread (Function.update rung t (rung t + 1)) := by
  intro t' k hk
  have habove {k : Nat} (hk : k ≠ rung t + 1) :
      above (Function.update rung t (rung t + 1)) k = above rung k := by
    ext v
    rw [mem_above, mem_above]
    by_cases hv : v = t
    · subst hv
      rw [Function.update_self]
      omega
    · rw [Function.update_of_ne hv]
  by_cases htop : k = rung t + 1
  · -- the one that stays behind is not among those above
    subst htop
    have hsub : above (Function.update rung t (rung t + 1)) (rung t + 1) ⊆ (above rung (rung t)).erase u := by
      intro v hv
      rw [mem_above] at hv
      rw [Finset.mem_erase, mem_above]
      by_cases hvt : v = t
      · subst hvt
        exact ⟨hne.symm, le_rfl⟩
      · rw [Function.update_of_ne hvt] at hv
        refine ⟨?_, by omega⟩
        rintro rfl
        omega
    have hcard := Finset.card_le_card hsub
    rw [Finset.card_erase_of_mem (mem_above.mpr hu.ge)] at hcard
    have hpos : 0 < (above rung (rung t)).card := Finset.card_pos.mpr ⟨t, mem_above.mpr le_rfl⟩
    have hold := h t (rung t) le_rfl
    omega
  · rw [habove htop]
    by_cases ht : t' = t
    · subst ht
      rw [Function.update_self] at hk
      exact h t' k (by omega)
    · rw [Function.update_of_ne ht] at hk
      exact h t' k hk

end LockLadder
