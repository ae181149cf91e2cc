import Mathlib.Data.Multiset.AddSub
import StressAppTest.PageEntry
import StressAppTest.Library.Threads

/-!
# Requests to the page pool

Workers reach the pages through four calls, `GetValid`, `GetEmpty`, `PutValid` and
`PutEmpty`. Both queue implementations answer them; they are objects in the sense of
`Library.Threads` with these requests and answers.

A client is *disciplined* when it only puts back entries it has obtained. `Discipline`
tracks the offsets of the entries a control state has in hand; it is all that the queues
need to know about the workers.
-/

namespace StressAppTest

/-- `GetValid` / `GetEmpty` with a tag, `PutValid` / `PutEmpty` with an entry. -/
inductive Request
  | get (kind : PageKind) (tag : Word32)
  | put (kind : PageKind) (pe : PageEntry)

/-- The answer to a `get` is an entry or a failure, the answer to a `put` a status. -/
inductive Response
  | entry (pe : Option PageEntry)
  | status (ok : Bool)

/-- The program of a set of workers. -/
abbrev Program (τ κ ω : Type) := Threads.Client τ Request Response κ ω

/-- The offsets a control state has in hand, and that only these are put back. -/
structure Discipline {τ κ ω : Type} (C : Program τ κ ω) where
  held : κ → Multiset Nat
  init : ∀ {ctl w}, C.init ctl w → ∀ t, held (ctl t) = 0
  got : ∀ {t k kind tag pe}, C.call k = some (.get kind tag) →
    held (C.resume t k (.entry (some pe))) = pe.offset ::ₘ held k
  missed : ∀ {t k kind tag}, C.call k = some (.get kind tag) →
    held (C.resume t k (.entry none)) = held k
  owns : ∀ {k kind pe}, C.call k = some (.put kind pe) → pe.offset ∈ held k
  gave : ∀ {t k kind pe}, C.call k = some (.put kind pe) →
    held (C.resume t k (.status true)) = (held k).erase pe.offset
  kept : ∀ {t k kind pe}, C.call k = some (.put kind pe) →
    held (C.resume t k (.status false)) = held k
  step : ∀ {t k w k' w'}, C.call k = none → C.step t k w k' w' → held k' = held k

/-! ## The most general workers -/

/-- A worker that may ask for anything, but puts back only what it has in hand. -/
structure AnyWorker where
  hand : Multiset Nat
  pending : Option Request
  owns : ∀ kind pe, pending = some (.put kind pe) → pe.offset ∈ hand

/-- The answer to the pending request. -/
def AnyWorker.resume (k : AnyWorker) : Response → AnyWorker
  | .entry (some pe) => ⟨pe.offset ::ₘ k.hand, none, by simp⟩
  | .status true =>
    match k.pending with
    | some (.put _ pe) => ⟨k.hand.erase pe.offset, none, by simp⟩
    | _ => ⟨k.hand, none, by simp⟩
  | _ => ⟨k.hand, none, by simp⟩

/-- Any number of most general workers. -/
def anyWorkers (τ : Type) : Program τ AnyWorker Unit where
  init ctl _ := ∀ t, (ctl t).hand = 0 ∧ (ctl t).pending = none
  call k := k.pending
  resume _ k a := k.resume a
  step _ k _ k' _ := k'.hand = k.hand
  env _ _ := False

/-- The local step to a chosen control state. -/
def anyWorkers.choose {τ : Type} (_ : τ) (x k : AnyWorker) (w : Unit) : Option (AnyWorker × Unit) :=
  if x.hand = k.hand then some (x, w) else none

theorem anyWorkers.step_of_choose {τ : Type} (t : τ) (x k : AnyWorker) (w : Unit) (k' : AnyWorker)
    (w' : Unit) (h : choose t x k w = some (k', w')) : (anyWorkers τ).step t k w k' w' := by
  unfold choose at h
  split at h
  · next heq =>
    obtain ⟨rfl, -⟩ := Prod.mk.inj (Option.some.inj h)
    exact heq
  · exact absurd h (by simp)

def anyDiscipline (τ : Type) : Discipline (anyWorkers τ) where
  held k := k.hand
  init h t := (h t).1
  got _ := rfl
  missed _ := rfl
  owns {k kind pe} h := k.owns kind pe h
  gave {_ k _ _} h := by
    change (k.resume _).hand = _
    have hk : k.pending = _ := h
    simp only [AnyWorker.resume, hk]
  kept _ := rfl
  step _ h := h

end StressAppTest
