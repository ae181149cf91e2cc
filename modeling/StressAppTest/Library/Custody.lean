import Mathlib.Algebra.Order.Group.Multiset
import StressAppTest.Library.Script

/-!
# Programs that take and put back

A `Code` is the text of a program that takes resources from a store, puts them back and asks
questions that are answered with yes or no. An execution is the list of what it did with the answers
(`Exec`), and a resource is in hand from the moment it is taken until it is put back (`handFrom`).

`Holds` is a logic of pre- and postconditions for such programs over the resources in hand, with a
flag that says whether one of the answers was a slip (`slip`). Puts of resources in hand succeed.

* `Holds.exec`: what an execution leaves in hand.
* `holds_runs`: the same for a loop whose body is such a program.
-/

namespace Custody

/-- The text of a program: `κ` are the parts of the store, `ρ` the resources, `α` the questions. -/
inductive Code (κ ρ α β : Type)
  | ret (b : β)
  | take (part : κ) (k : Option ρ → Code κ ρ α β)
  | store (part : κ) (r : ρ) (k : Bool → Code κ ρ α β)
  | ask (q : α) (k : Bool → Code κ ρ α β)

/-- What an execution does. -/
inductive Event (κ ρ α : Type)
  | take (part : κ) (r : Option ρ)
  | store (part : κ) (r : ρ) (ok : Bool)
  | ask (q : α) (yes : Bool)

variable {κ ρ α β γ : Type}

namespace Code

def bind : Code κ ρ α β → (β → Code κ ρ α γ) → Code κ ρ α γ
  | .ret b, f => f b
  | .take part k, f => .take part fun r => (k r).bind f
  | .store part r k, f => .store part r fun ok => (k ok).bind f
  | .ask q k, f => .ask q fun yes => (k yes).bind f

instance : Monad (Code κ ρ α) where
  pure := .ret
  bind := .bind

end Code

/-- Take a resource, if there is one. -/
def take (part : κ) : Code κ ρ α (Option ρ) := .take part .ret

/-- Put a resource back. -/
def store (part : κ) (r : ρ) : Code κ ρ α Bool := .store part r .ret

/-- Ask a question. -/
def ask (q : α) : Code κ ρ α Bool := .ask q .ret

/-- The executions of a program, with their results. -/
inductive Exec : Code κ ρ α β → List (Event κ ρ α) → β → Prop
  | ret {b : β} : Exec (.ret b) [] b
  | take {part : κ} {k : Option ρ → Code κ ρ α β} {r : Option ρ} {trace : List (Event κ ρ α)} {b : β}
      (h : Exec (k r) trace b) : Exec (.take part k) (.take part r :: trace) b
  | store {part : κ} {r : ρ} {k : Bool → Code κ ρ α β} {ok : Bool} {trace : List (Event κ ρ α)} {b : β}
      (h : Exec (k ok) trace b) : Exec (.store part r k) (.store part r ok :: trace) b
  | ask {q : α} {k : Bool → Code κ ρ α β} {yes : Bool} {trace : List (Event κ ρ α)} {b : β}
      (h : Exec (k yes) trace b) : Exec (.ask q k) (.ask q yes :: trace) b

/-- The executions of a loop, with the status it ends with. -/
inductive Runs {J : Type} (body : J → Code κ ρ α (Threads.Turn J)) :
    J → List (Event κ ρ α) → Bool → Prop
  | exit {job : J} {trace : List (Event κ ρ α)} {status : Bool}
      (h : Exec (body job) trace (.exit status)) : Runs body job trace status
  | again {job job' : J} {trace rest : List (Event κ ρ α)} {status : Bool}
      (h : Exec (body job) trace (.again job')) (hrest : Runs body job' rest status) :
      Runs body job (trace ++ rest) status

/-- Every put succeeds. -/
def PutsSucceed (trace : List (Event κ ρ α)) : Prop := ∀ part r, Event.store part r false ∉ trace

section Hand

variable [DecidableEq ρ]

/-- The resources in hand after an execution, if only resources in hand are put back. -/
def handFrom : Multiset ρ → List (Event κ ρ α) → Option (Multiset ρ)
  | hand, [] => some hand
  | hand, .take _ (some r) :: trace => handFrom (r ::ₘ hand) trace
  | hand, .store _ r true :: trace => if r ∈ hand then handFrom (hand.erase r) trace else none
  | hand, .take _ none :: trace | hand, .store _ _ false :: trace | hand, .ask _ _ :: trace =>
      handFrom hand trace

/-- Everything that was taken has been put back, once. -/
def PutBack (trace : List (Event κ ρ α)) : Prop := handFrom 0 trace = some 0

/-- What is in the store after an execution, if it has taken only what was there. -/
def storeFrom : Multiset ρ → List (Event κ ρ α) → Option (Multiset ρ)
  | there, [] => some there
  | there, .take _ (some r) :: trace => if r ∈ there then storeFrom (there.erase r) trace else none
  | there, .store _ r true :: trace => storeFrom (r ::ₘ there) trace
  | there, .take _ none :: trace | there, .store _ _ false :: trace | there, .ask _ _ :: trace =>
      storeFrom there trace

/-- What is in hand and what is in the store add up. -/
theorem storeFrom_add {hand hand' there there' : Multiset ρ} {trace : List (Event κ ρ α)}
    (hhand : handFrom hand trace = some hand') (hthere : storeFrom there trace = some there') :
    there' + hand' = there + hand := by
  fun_induction handFrom hand trace generalizing there with
  | case1 hand =>
      rw [← Option.some.inj hhand, ← Option.some.inj hthere]
  | case2 hand part r trace ih =>
      rw [storeFrom] at hthere
      split at hthere
      · next hmem =>
        rw [ih hhand hthere, Multiset.add_cons, ← Multiset.cons_add, Multiset.cons_erase hmem]
      · exact absurd hthere nofun
  | case3 hand part r trace hmem ih =>
      rw [ih hhand hthere, Multiset.cons_add, ← Multiset.add_cons, Multiset.cons_erase hmem]
  | case4 => exact absurd hhand nofun
  | case5 hand part trace ih => exact ih hhand hthere
  | case6 hand part r trace ih => exact ih hhand hthere
  | case7 hand q yes trace ih => exact ih hhand hthere

theorem handFrom_append (hand : Multiset ρ) (trace rest : List (Event κ ρ α)) :
    handFrom hand (trace ++ rest) = (handFrom hand trace).bind fun hand => handFrom hand rest := by
  fun_induction handFrom hand trace with
  | case1 hand => rfl
  | case2 hand part r trace ih => exact ih
  | case3 hand part r trace hmem ih =>
      rw [List.cons_append, handFrom, if_pos hmem]
      exact ih
  | case4 hand part r trace hmem =>
      rw [List.cons_append, handFrom, if_neg hmem]
      rfl
  | case5 hand part trace ih => exact ih
  | case6 hand part r trace ih => exact ih
  | case7 hand q yes trace ih => exact ih

/-! ## Pre- and postconditions -/

/-- The answer no to one of the questions `slip`. -/
def Event.isSlip (slip : α → Bool) : Event κ ρ α → Bool
  | .ask q false => slip q
  | _ => false

omit [DecidableEq ρ] in
theorem any_isSlip_eq_false {slip : α → Bool} {trace : List (Event κ ρ α)} :
    trace.any (Event.isSlip slip) = false ↔ ∀ q, slip q = true → Event.ask q false ∉ trace := by
  rw [List.any_eq_false]
  constructor
  · intro h q hq hmem
    exact h _ hmem hq
  · intro h e he hslip
    match e, he, hslip with
    | .ask q false, he, hslip => exact h q hslip he

variable (slip : α → Bool)

/-- With `hand` in hand, and `slipped` so far, the program puts back only what it has in hand and
ends in `Q`. -/
def Holds (Q : β → Multiset ρ → Bool → Prop) : Code κ ρ α β → Multiset ρ → Bool → Prop
  | .ret b, hand, slipped => Q b hand slipped
  | .take _ k, hand, slipped =>
      Holds Q (k none) hand slipped ∧ ∀ r, Holds Q (k (some r)) (r ::ₘ hand) slipped
  | .store _ r k, hand, slipped => r ∈ hand ∧ Holds Q (k true) (hand.erase r) slipped
  | .ask q k, hand, slipped => Holds Q (k true) hand slipped ∧ Holds Q (k false) hand (slipped || slip q)

variable {slip} {Q : β → Multiset ρ → Bool → Prop} {hand : Multiset ρ} {slipped : Bool}

/-- **Sequencing.** -/
theorem holds_bind {Q' : γ → Multiset ρ → Bool → Prop} {x : Code κ ρ α β} {f : β → Code κ ρ α γ}
    (hx : Holds slip Q x hand slipped)
    (hf : ∀ b hand slipped, Q b hand slipped → Holds slip Q' (f b) hand slipped) :
    Holds slip Q' (x >>= f) hand slipped := by
  change Holds slip Q' (x.bind f) hand slipped
  induction x generalizing hand slipped with
  | ret b => exact hf b hand slipped hx
  | take part k ih => exact ⟨ih none hx.1, fun r => ih (some r) (hx.2 r)⟩
  | store part r k ih => exact ⟨hx.1, ih true hx.2⟩
  | ask q k ih => exact ⟨ih true hx.1, ih false hx.2⟩

theorem holds_ite {c : Prop} [Decidable c] {x y : Code κ ρ α β} (hx : c → Holds slip Q x hand slipped)
    (hy : ¬ c → Holds slip Q y hand slipped) : Holds slip Q (if c then x else y) hand slipped := by
  split
  · next h => exact hx h
  · next h => exact hy h

/-- A question whose answer is no slip. -/
theorem holds_ask {Q' : γ → Multiset ρ → Bool → Prop} {q : α} {f : Bool → Code κ ρ α γ}
    (hq : slip q = false) (hf : ∀ yes, Holds slip Q' (f yes) hand slipped) :
    Holds slip Q' (ask q >>= f) hand slipped := by
  refine ⟨hf true, ?_⟩
  rw [hq, Bool.or_false]
  exact hf false

/-- A put of a resource in hand. -/
theorem holds_store {Q' : γ → Multiset ρ → Bool → Prop} {part : κ} {r : ρ} {f : Bool → Code κ ρ α γ}
    (hr : r ∈ hand) (hf : Holds slip Q' (f true) (hand.erase r) slipped) :
    Holds slip Q' (store part r >>= f) hand slipped := ⟨hr, hf⟩

/-- **What an execution leaves in hand.** -/
theorem Holds.exec {x : Code κ ρ α β} {trace : List (Event κ ρ α)} {b : β}
    (h : Holds slip Q x hand slipped) (hexec : Exec x trace b) (hputs : PutsSucceed trace) :
    ∃ hand', handFrom hand trace = some hand' ∧ Q b hand' (slipped || trace.any (Event.isSlip slip)) := by
  induction hexec generalizing hand slipped with
  | ret =>
      refine ⟨hand, rfl, ?_⟩
      rw [List.any_nil, Bool.or_false]
      exact h
  | @take part k r trace b _ ih =>
      have hrest : PutsSucceed trace := fun part r hmem => hputs part r (List.mem_cons_of_mem _ hmem)
      cases r with
      | none => exact ih h.1 hrest
      | some r => exact ih (h.2 r) hrest
  | @store part r k ok trace b _ ih =>
      have hrest : PutsSucceed trace := fun part r hmem => hputs part r (List.mem_cons_of_mem _ hmem)
      cases ok with
      | false => exact absurd (List.mem_cons_self ..) (hputs part r)
      | true =>
          obtain ⟨hand', hhand, hQ⟩ := ih h.2 hrest
          refine ⟨hand', ?_, hQ⟩
          rw [handFrom, if_pos h.1]
          exact hhand
  | @ask q k yes trace b _ ih =>
      have hrest : PutsSucceed trace := fun part r hmem => hputs part r (List.mem_cons_of_mem _ hmem)
      cases yes with
      | true => exact ih h.1 hrest
      | false =>
          obtain ⟨hand', hhand, hQ⟩ := ih h.2 hrest
          refine ⟨hand', hhand, ?_⟩
          rw [List.any_cons, ← Bool.or_assoc]
          exact hQ

/-- Between two passes of a loop nothing is in hand and there was no slip; at its end something is
in hand if and only if there was one. -/
def Clean {J : Type} : Threads.Turn J → Multiset ρ → Bool → Prop
  | .again _, hand, slipped => hand = 0 ∧ slipped = false
  | .exit _, hand, slipped => hand = 0 ↔ slipped = false

/-- **What a loop leaves in hand.** -/
theorem hand_of_runs {J : Type} {body : J → Code κ ρ α (Threads.Turn J)}
    (hbody : ∀ job, Holds slip Clean (body job) 0 false) {job : J} {trace : List (Event κ ρ α)}
    {status : Bool} (h : Runs body job trace status) (hputs : PutsSucceed trace) :
    ∃ hand, handFrom 0 trace = some hand ∧ (hand = 0 ↔ trace.any (Event.isSlip slip) = false) := by
  induction h with
  | @exit job trace status hexec =>
      obtain ⟨hand, hhand, hclean⟩ := (hbody job).exec hexec hputs
      rw [Bool.false_or] at hclean
      exact ⟨hand, hhand, hclean⟩
  | @again job job' trace rest status hexec _ ih =>
      have hputs₁ : PutsSucceed trace := fun part r hmem => hputs part r (List.mem_append_left _ hmem)
      have hputs₂ : PutsSucceed rest := fun part r hmem => hputs part r (List.mem_append_right _ hmem)
      obtain ⟨hand, hhand, rfl, hnoslip⟩ := (hbody job).exec hexec hputs₁
      rw [Bool.false_or] at hnoslip
      rw [handFrom_append, hhand, Option.bind_some, List.any_append, hnoslip, Bool.false_or]
      exact ih hputs₂

/-- **A loop puts everything back if and only if there is no slip**, and then the store is as
before. -/
theorem holds_runs {J : Type} {body : J → Code κ ρ α (Threads.Turn J)}
    (hbody : ∀ job, Holds slip Clean (body job) 0 false) {job : J} {trace : List (Event κ ρ α)}
    {status : Bool} (h : Runs body job trace status) (hputs : PutsSucceed trace) :
    (PutBack trace ↔ ∀ q, slip q = true → Event.ask q false ∉ trace) ∧
      ∀ there there', storeFrom there trace = some there' → (there' = there ↔ PutBack trace) := by
  obtain ⟨hand, hhand, hzero⟩ := hand_of_runs hbody h hputs
  refine ⟨?_, ?_⟩
  · rw [PutBack, hhand, Option.some.injEq, hzero, any_isSlip_eq_false]
  · intro there there' hthere
    have hadd := storeFrom_add hhand hthere
    rw [add_zero] at hadd
    rw [PutBack, hhand, Option.some.injEq, ← hadd]
    exact left_eq_add

end Hand

end Custody
