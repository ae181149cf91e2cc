import Mathlib.Data.Multiset.AddSub
import Mathlib.Data.Multiset.Filter
import Mathlib.Logic.Function.Basic

/-!
# Exclusive ownership under locks

Threads `τ` hold numbered resources `ι`, each guarded by a lock. `Exclusive valid locked
holding` says that a lock is taken exactly when one thread holds its resource, and that no
resource is held twice. Taking a free lock (`acquire`) and giving a held one back
(`release`) keep it.
-/

namespace Ownership

variable {τ ι : Type*}

structure Exclusive (valid : ι → Prop) (locked : ι → Bool) (holding : τ → Multiset ι) : Prop where
  valid_of_mem : ∀ {t i}, i ∈ holding t → valid i
  nodup : ∀ t, (holding t).Nodup
  owner_unique : ∀ {t t' i}, i ∈ holding t → i ∈ holding t' → t = t'
  locked_iff : ∀ {i}, valid i → (locked i = true ↔ ∃ t, i ∈ holding t)

variable {valid : ι → Prop} {locked : ι → Bool} {holding : τ → Multiset ι}

theorem Exclusive.existsUnique (h : Exclusive valid locked holding) {i : ι} (hi : valid i)
    (hl : locked i = true) : ∃! t, i ∈ holding t := by
  obtain ⟨t, ht⟩ := (h.locked_iff hi).mp hl
  exact ⟨t, ht, fun t' ht' => h.owner_unique ht' ht⟩

theorem Exclusive.locked_of_mem (h : Exclusive valid locked holding) {t : τ} {i : ι}
    (hi : i ∈ holding t) : locked i = true :=
  (h.locked_iff (h.valid_of_mem hi)).mpr ⟨t, hi⟩

variable [DecidableEq τ] [DecidableEq ι]

/-- A thread takes a free lock. -/
theorem Exclusive.acquire (h : Exclusive valid locked holding) {t : τ} {i : ι} (hi : valid i)
    (hfree : locked i = false) :
    Exclusive valid (Function.update locked i true)
      (Function.update holding t (i ::ₘ holding t)) := by
  have hnot : ∀ t', i ∉ holding t' := fun t' hmem => by
    rw [h.locked_of_mem hmem] at hfree
    exact absurd hfree (by decide)
  have hmem : ∀ {t' j}, j ∈ Function.update holding t (i ::ₘ holding t) t' →
      (t' = t ∧ j = i) ∨ j ∈ holding t' := by
    intro t' j hj
    by_cases ht : t' = t
    · subst ht
      rw [Function.update_self, Multiset.mem_cons] at hj
      exact hj.imp (fun hji => ⟨rfl, hji⟩) id
    · rw [Function.update_of_ne ht] at hj
      exact .inr hj
  have hold : ∀ {t' j}, j ∈ holding t' →
      j ∈ Function.update holding t (i ::ₘ holding t) t' := by
    intro t' j hj
    by_cases ht : t' = t
    · subst ht
      rw [Function.update_self]
      exact Multiset.mem_cons_of_mem hj
    · rwa [Function.update_of_ne ht]
  refine ⟨?_, ?_, ?_, ?_⟩
  · intro t' j hj
    rcases hmem hj with ⟨-, rfl⟩ | hj
    · exact hi
    · exact h.valid_of_mem hj
  · intro t'
    by_cases ht : t' = t
    · subst ht
      rw [Function.update_self, Multiset.nodup_cons]
      exact ⟨hnot t', h.nodup t'⟩
    · rw [Function.update_of_ne ht]
      exact h.nodup t'
  · intro t₁ t₂ j h₁ h₂
    rcases hmem h₁ with ⟨rfl, rfl⟩ | h₁'
    · rcases hmem h₂ with ⟨rfl, -⟩ | h₂'
      · rfl
      · exact absurd h₂' (hnot _)
    · rcases hmem h₂ with ⟨-, rfl⟩ | h₂'
      · exact absurd h₁' (hnot _)
      · exact h.owner_unique h₁' h₂'
  · intro j hj
    by_cases hji : j = i
    · subst hji
      rw [Function.update_self]
      exact ⟨fun _ => ⟨t, by simp⟩, fun _ => rfl⟩
    · rw [Function.update_of_ne hji, h.locked_iff hj]
      constructor
      · exact fun ⟨t', ht'⟩ => ⟨t', hold ht'⟩
      · rintro ⟨t', ht'⟩
        exact ⟨t', (hmem ht').resolve_left fun hc => hji hc.2⟩

/-- A thread gives back what it holds. -/
theorem Exclusive.release (h : Exclusive valid locked holding) {t : τ} {i : ι}
    (hi : i ∈ holding t) :
    Exclusive valid (Function.update locked i false)
      (Function.update holding t ((holding t).erase i)) := by
  have hmem : ∀ {t' j}, j ∈ Function.update holding t ((holding t).erase i) t' ↔
      j ∈ holding t' ∧ j ≠ i := by
    intro t' j
    by_cases ht : t' = t
    · subst ht
      rw [Function.update_self, Multiset.Nodup.mem_erase_iff (h.nodup t')]
      exact and_comm
    · rw [Function.update_of_ne ht]
      refine ⟨fun hj => ⟨hj, ?_⟩, fun hj => hj.1⟩
      rintro rfl
      exact ht (h.owner_unique hj hi)
  refine ⟨?_, ?_, ?_, ?_⟩
  · intro t' j hj
    exact h.valid_of_mem (hmem.mp hj).1
  · intro t'
    by_cases ht : t' = t
    · subst ht
      rw [Function.update_self]
      exact (h.nodup t').erase i
    · rw [Function.update_of_ne ht]
      exact h.nodup t'
  · intro t₁ t₂ j h₁ h₂
    exact h.owner_unique (hmem.mp h₁).1 (hmem.mp h₂).1
  · intro j hj
    by_cases hji : j = i
    · subst hji
      rw [Function.update_self]
      simp only [hmem, ne_eq, not_true_eq_false, and_false, exists_false, Bool.false_eq_true]
    · rw [Function.update_of_ne hji, h.locked_iff hj]
      simp only [hmem, ne_eq, hji, not_false_eq_true, and_true]

end Ownership
