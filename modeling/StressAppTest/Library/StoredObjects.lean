import Mathlib.Algebra.BigOperators.Group.List.Basic
import Mathlib.Algebra.Order.BigOperators.Group.List
import Mathlib.Algebra.Order.Ring.Nat
import Mathlib.Data.List.Perm.Subperm
import Mathlib.Data.Nat.Count

/-!
# Objects in a store that loses cells

Objects of one length lie in a store, each at its own place, and each with a content that it should have.
`wrong` counts the cells of an object that differ from it, and `debt` those of several objects.

When objects do not overlap, a cell that the store loses adds at most one to the debt
(`debt_update_le`), and the object that is stored anew leaves that of the others (`debt_congr`).
-/

namespace StoredObjects

variable {κ α : Type*} [DecidableEq α]

/-- Where the objects are and what they should hold. -/
structure Layout (κ α : Type*) where
  start : κ → Nat
  want : κ → Nat → α
  length : Nat

namespace Layout

/-- The cells of an object that are wrong. -/
def wrong (o : Layout κ α) (mem : Nat → α) (k : κ) : Nat :=
  Nat.count (fun i => mem (o.start k + i) ≠ o.want k i) o.length

def debt (o : Layout κ α) (mem : Nat → α) (live : List κ) : Nat := (live.map (o.wrong mem)).sum

def Covers (o : Layout κ α) (k : κ) (a : Nat) : Prop := o.start k ≤ a ∧ a < o.start k + o.length

def Apart (o : Layout κ α) (k l : κ) : Prop :=
  o.start k + o.length ≤ o.start l ∨ o.start l + o.length ≤ o.start k

variable {o o' : Layout κ α} {mem mem' : Nat → α} {k l : κ} {a : Nat} {live live' : List κ}

omit [DecidableEq α] in
/-- A cell lies in one of two objects at most. -/
theorem Apart.covers (h : o.Apart k l) (hk : o.Covers k a) : ¬ o.Covers l a := by
  intro hl
  have hk' := hk.2
  have hl' := hl.2
  rcases h with h | h
  · have hstart := hl.1
    omega
  · have hstart := hk.1
    omega

theorem wrong_congr (hlength : o'.length = o.length) (hstart : o'.start k = o.start k)
    (hwant : o'.want k = o.want k) (hmem : ∀ a, o.Covers k a → mem' a = mem a) :
    o'.wrong mem' k = o.wrong mem k := by
  unfold wrong
  rw [hlength]
  refine Nat.le_antisymm (Nat.count_mono_left fun i hi => ?_) (Nat.count_mono_left fun i hi => ?_)
  all_goals
    rw [hstart, hwant, hmem _ ⟨Nat.le_add_right .., Nat.add_lt_add_left hi _⟩]
    exact id

/-- A predicate that is changed at one place. -/
theorem count_le_succ {p q : Nat → Prop} [DecidablePred p] [DecidablePred q] {b : Nat}
    (h : ∀ i, i ≠ b → q i → p i) (n : Nat) : Nat.count q n ≤ Nat.count p n + if b < n then 1 else 0 := by
  induction n with
  | zero => simp
  | succ n ih =>
      rw [Nat.count_succ, Nat.count_succ]
      by_cases hn : n = b
      · subst hn
        have hone : (if q n then 1 else 0) ≤ 1 := by split <;> omega
        rw [if_neg (Nat.lt_irrefl n)] at ih
        rw [if_pos (Nat.lt_succ_self n)]
        omega
      · have hle : (if q n then 1 else 0) ≤ if p n then 1 else 0 := by
          by_cases hq : q n
          · rw [if_pos hq, if_pos (h n hn hq)]
          · rw [if_neg hq]
            exact Nat.zero_le _
        have hlt : (if b < n then 1 else 0) ≤ if b < n + 1 then 1 else 0 := by
          split
          · rw [if_pos (by omega)]
          · exact Nat.zero_le _
        omega

/-- One cell of the store is changed. -/
theorem wrong_update_le (o : Layout κ α) (mem : Nat → α) (k : κ) (a : Nat) (w : α) :
    o.wrong (Function.update mem a w) k ≤ o.wrong mem k + 1 := by
  have hcount := count_le_succ (p := fun i => mem (o.start k + i) ≠ o.want k i)
    (q := fun i => Function.update mem a w (o.start k + i) ≠ o.want k i) (b := a - o.start k)
    (fun i hi hne => by rwa [Function.update_of_ne (by omega)] at hne) o.length
  refine hcount.trans (Nat.add_le_add_left ?_ _)
  split <;> omega

theorem wrong_update_of_not_covers (h : ¬ o.Covers k a) (w : α) :
    o.wrong (Function.update mem a w) k = o.wrong mem k := by
  refine wrong_congr rfl rfl rfl fun b hb => Function.update_of_ne ?_ ..
  rintro rfl
  exact h hb

theorem debt_congr (h : ∀ k ∈ live, o'.wrong mem' k = o.wrong mem k) :
    o'.debt mem' live = o.debt mem live := congrArg List.sum (List.map_congr_left h)

theorem debt_cons : o.debt mem (k :: live) = o.wrong mem k + o.debt mem live := by
  rw [debt, List.map_cons, List.sum_cons, debt]

/-- Fewer objects have less debt. -/
theorem debt_le (h : live'.Subperm live) : o.debt mem live' ≤ o.debt mem live := by
  obtain ⟨l, hperm, hsub⟩ := h
  rw [debt, debt, ← (hperm.map _).sum_eq]
  exact (hsub.map _).sum_le_sum fun _ _ => Nat.zero_le _

/-- **A cell is lost.** -/
theorem debt_update_le (hnodup : live.Nodup) (hapart : ∀ k ∈ live, ∀ l ∈ live, k ≠ l → o.Apart k l)
    (a : Nat) (w : α) : o.debt (Function.update mem a w) live ≤ o.debt mem live + 1 := by
  induction live with
  | nil => exact Nat.zero_le _
  | cons k live ih =>
      obtain ⟨hk, hnodup⟩ := List.nodup_cons.mp hnodup
      rw [debt_cons, debt_cons]
      by_cases hcovers : o.Covers k a
      · have hrest : o.debt (Function.update mem a w) live = o.debt mem live := by
          refine debt_congr fun l hl => wrong_update_of_not_covers ?_ w
          have hne : k ≠ l := fun heq => hk (heq ▸ hl)
          exact (hapart k (List.mem_cons_self ..) l (List.mem_cons_of_mem _ hl) hne).covers hcovers
        have hone := o.wrong_update_le mem k a w
        omega
      · have hrest := ih hnodup fun l hl m hm =>
          hapart l (List.mem_cons_of_mem _ hl) m (List.mem_cons_of_mem _ hm)
        rw [wrong_update_of_not_covers hcovers]
        omega

end Layout

end StoredObjects
