import Mathlib.Algebra.BigOperators.Group.Finset.Piecewise
import Mathlib.Algebra.Order.BigOperators.Group.Finset
import StressAppTest.Pool

/-!
# Counting the pages of the pool

`stock` is the number of pages of a kind in the pool. A step of the pool changes one slot, and
so the count by what that slot was and is (`stock_take`, `stock_give`); a step of one thread
changes one term of a sum over the threads (`sum_threads`).
-/

namespace StressAppTest

theorem sum_update_add {ι : Type*} [DecidableEq ι] (s : Finset ι) (f : ι → Nat) {k : ι} (hk : k ∈ s)
    (b : Nat) : (∑ x ∈ s, Function.update f k b x) + f k = (∑ x ∈ s, f x) + b := by
  rw [Finset.sum_update_of_mem hk, ← Finset.add_sum_erase s f hk, Finset.sdiff_singleton_eq_erase]
  omega

/-- One if the page is in the pool and of the kind. -/
def ofKind (kind : PageKind) (x : Option Slot) : Nat := if x.map Prod.fst = some kind then 1 else 0

/-- The pages of the kind in the pool. -/
def stock (pages : Nat) (slot : Nat → Option Slot) (kind : PageKind) : Nat :=
  ∑ i ∈ Finset.range pages, ofKind kind (slot i)

theorem stock_update {pages i : Nat} (hi : i < pages) (slot : Nat → Option Slot) (x : Option Slot)
    (kind : PageKind) :
    stock pages (Function.update slot i x) kind + ofKind kind (slot i) =
      stock pages slot kind + ofKind kind x := by
  have hsum := sum_update_add (Finset.range pages) (fun j => ofKind kind (slot j))
    (Finset.mem_range.mpr hi) (ofKind kind x)
  have hcongr : ∀ j, ofKind kind (Function.update slot i x j) =
      Function.update (fun j => ofKind kind (slot j)) i (ofKind kind x) j :=
    fun j => Function.apply_update (fun _ => ofKind kind) slot i x j
  simpa only [stock, hcongr] using hsum

section Move

variable {pages i : Nat} {slot : Nat → Option Slot} {kind : PageKind} {pattern : Option Pattern}

theorem ofKind_some (kind' : PageKind) :
    ofKind kind' (some (kind, pattern)) = if kind' = kind then 1 else 0 := by
  by_cases hk : kind' = kind
  · simp [ofKind, hk]
  · simp [ofKind, hk, Ne.symm hk]

theorem stock_take (hi : i < pages) (hslot : slot i = some (kind, pattern)) (kind' : PageKind) :
    stock pages (Function.update slot i none) kind' + (if kind' = kind then 1 else 0) =
      stock pages slot kind' := by
  have hstock := stock_update hi slot none kind'
  rwa [hslot, ofKind_some] at hstock

theorem stock_give (hi : i < pages) (hout : slot i = none) (kind : PageKind) (pattern : Option Pattern)
    (kind' : PageKind) : stock pages (Function.update slot i (some (kind, pattern))) kind' =
      stock pages slot kind' + if kind' = kind then 1 else 0 := by
  have hstock := stock_update hi slot (some (kind, pattern)) kind'
  rwa [hout, ofKind_some] at hstock

end Move

theorem stock_pos {pages : Nat} {slot : Nat → Option Slot} {kind : PageKind} {i : Nat}
    {p : Option Pattern} (hi : i < pages) (h : slot i = some (kind, p)) :
    0 < stock pages slot kind := by
  apply Finset.sum_pos'
  · exact fun _ _ => Nat.zero_le _
  · refine ⟨i, Finset.mem_range.mpr hi, ?_⟩
    simp [ofKind, h]

/-- A step of one thread changes one term of a sum over all of them. -/
theorem sum_threads {τ S : Type} [DecidableEq τ] [Fintype τ] (g : PoolOp → S → Nat) (op : τ → PoolOp)
    (ctl : τ → S) (t : τ) (o : PoolOp) (x : S) :
    ∑ t', g (Function.update op t o t') (Function.update ctl t x t') + g (op t) (ctl t) =
      ∑ t', g (op t') (ctl t') + g o x := by
  have hsum := sum_update_add Finset.univ (fun t' => g (op t') (ctl t')) (Finset.mem_univ t) (g o x)
  have hcongr : ∀ t', g (Function.update op t o t') (Function.update ctl t x t') =
      Function.update (fun t' => g (op t') (ctl t')) t (g o x) t' := by
    intro t'
    by_cases ht : t' = t
    · subst ht
      simp
    · simp [ht]
  simpa only [hcongr] using hsum

end StressAppTest
