import StressAppTest.PageQueue
import StressAppTest.Library.Script

/-!
# The page pool

What the workers use a page queue for: a pool of pages, each of which is in the pool as a
valid or an empty page, with the pattern it is said to hold, or out of it. A get takes some
page of its kind out of the pool, or fails; a put stores a page that is out. Both queue
implementations refine this pool (`FineLock.Refinement`, `OneLock.Refinement`), so what holds
of the workers over the pool holds over either queue.
-/

namespace StressAppTest

open Threads

/-- A page in the pool: its kind, and the pattern of its entry. -/
abbrev Slot := PageKind × Option Pattern

/-- Where a thread stands: outside, in a call, or about to get its answer. -/
inductive PoolOp
  | idle
  | busy (r : Request)
  | done (r : Request) (a : Response)

/-- The call a thread is in. -/
def PoolOp.request : PoolOp → Option Request
  | .idle => none
  | .busy r => some r
  | .done r _ => some r

theorem PoolOp.eq_idle_of_request {o : PoolOp} (h : o.request = none) : o = .idle := by
  cases o with
  | idle => rfl
  | _ => cases h

/-- The pages a thread has in hand at `o`, by index, when its program has the pages `H` in hand. -/
def PoolOp.inHand (pageLength : Nat) (o : PoolOp) (H : Multiset Nat) : Multiset Nat :=
  match o with
  | .done (.get _ _) (.entry (some pe)) => pe.offset / pageLength ::ₘ H
  | .done (.put _ pe) (.status true) => H.erase (pe.offset / pageLength)
  | _ => H

/-- What is known of an answer: it is of the kind of its request, an entry is one of a page, and
only a put of a valid page without a pattern fails. -/
def PoolOp.Sound (pages pageLength : Nat) : PoolOp → Prop
  | .done (.get _ _) (.entry (some pe)) => ∃ i < pages, pe.offset = i * pageLength
  | .done (.get _ _) (.status _) => False
  | .done (.put _ _) (.entry _) => False
  | .done (.put kind pe) (.status false) => kind = .valid ∧ pe.pattern = none
  | _ => True

/-- The pages that are in the pool, by index, and where each thread stands. -/
@[ext] structure PoolState (τ : Type) where
  slot : Nat → Option Slot
  op : τ → PoolOp

/-- With a page taken out the others are as before. -/
theorem slot_of_take {slot : Nat → Option Slot} {i j : Nat} {x : Slot}
    (h : Function.update slot i none j = some x) : slot j = some x := by
  by_cases hji : j = i
  · subst hji
    simp at h
  · simpa [hji] using h

/-- With a page put in the others are as before. -/
theorem slot_of_give {slot : Nat → Option Slot} {i j : Nat} {x y : Slot}
    (h : Function.update slot i (some y) j = some x) : (j = i ∧ y = x) ∨ slot j = some x := by
  by_cases hji : j = i
  · subst hji
    exact .inl ⟨rfl, by simpa using h⟩
  · exact .inr (by simpa [hji] using h)

/-- Pages stay inside the pool. -/
theorem inside_update {pages : Nat} {slot : Nat → Option Slot} {i : Nat}
    (hin : ∀ j x, slot j = some x → j < pages) (hi : i < pages) (y : Option Slot) :
    ∀ j x, Function.update slot i y j = some x → j < pages := by
  intro j x hx
  by_cases hji : j = i
  · exact hji ▸ hi
  · exact hin j x (by simpa [hji] using hx)

/-- Valid pages keep naming a pattern. -/
theorem labelled_give {slot : Nat → Option Slot} {i : Nat} {kind : PageKind} {pattern : Option Pattern}
    (hlab : ∀ j p, slot j = some (.valid, p) → p.isSome) (hpattern : kind = .valid → pattern.isSome) :
    ∀ j p, Function.update slot i (some (kind, pattern)) j = some (.valid, p) → p.isSome := by
  intro j p hx
  rcases slot_of_give hx with ⟨-, hy⟩ | hold
  · obtain ⟨hk, rfl⟩ := Prod.mk.inj hy
    exact hpattern hk
  · exact hlab j p hold

/-- The requests that may be turned down, with the answer: any get, and the put of an entry as
valid that names no pattern. -/
def Refused : Request → Response → Prop
  | .get _ _, a => a = .entry none
  | .put kind pe, a => kind = .valid ∧ pe.pattern = none ∧ a = .status false

/-- Where a request that is accepted, or turned down at once, leaves its thread. -/
theorem called_cases {r : Request} {o : PoolOp} (h : o = .busy r ∨ ∃ a, Refused r a ∧ o = .done r a) :
    o = .busy r ∨ (∃ kind tag, r = .get kind tag ∧ o = .done (.get kind tag) (.entry none)) ∨
      ∃ pe, r = .put .valid pe ∧ pe.pattern = none ∧ o = .done (.put .valid pe) (.status false) := by
  rcases h with rfl | ⟨a, ha, rfl⟩
  · exact .inl rfl
  · cases r with
    | get kind tag =>
        obtain rfl : a = .entry none := ha
        exact .inr (.inl ⟨kind, tag, rfl, rfl⟩)
    | put kind pe =>
        obtain ⟨rfl, hnone, rfl⟩ := ha
        exact .inr (.inr ⟨pe, rfl, hnone, rfl⟩)

theorem request_of_called {r : Request} {o : PoolOp} (h : o = .busy r ∨ ∃ a, Refused r a ∧ o = .done r a) :
    o.request = some r := by
  rcases h with rfl | ⟨a, -, rfl⟩
  · rfl
  · rfl

section

variable {τ : Type} [DecidableEq τ]

/-- The steps of a call, for pages of `pageLength` bytes. -/
inductive PoolStep (pages pageLength : Nat) (s : PoolState τ) (t : τ) : PoolState τ → Prop
  | found {kind : PageKind} {tag : Word32} {i : Nat} {pe : PageEntry}
      (hop : s.op t = .busy (.get kind tag)) (hslot : s.slot i = some (kind, pe.pattern))
      (hoff : pe.offset = i * pageLength) :
      PoolStep pages pageLength s t ⟨Function.update s.slot i none,
        Function.update s.op t (.done (.get kind tag) (.entry (some pe)))⟩
  | missed {kind : PageKind} {tag : Word32} (hop : s.op t = .busy (.get kind tag)) :
      PoolStep pages pageLength s t
        ⟨s.slot, Function.update s.op t (.done (.get kind tag) (.entry none))⟩
  | stored {kind : PageKind} {pe : PageEntry} {i : Nat} {pattern : Option Pattern}
      (hop : s.op t = .busy (.put kind pe)) (hi : i < pages) (hoff : pe.offset = i * pageLength)
      (hout : s.slot i = none) (hpattern : kind = .valid → pattern = pe.pattern) :
      PoolStep pages pageLength s t ⟨Function.update s.slot i (some (kind, pattern)),
        Function.update s.op t (.done (.put kind pe) (.status true))⟩

/-- The pool as a shared object. -/
@[reducible] def poolObj (pages pageLength : Nat) (τ : Type) [DecidableEq τ]
    (init : (Nat → Option Slot) → Prop) : Obj τ Request Response where
  State := PoolState τ
  init s := init s.slot ∧ ∀ t, s.op t = .idle
  call s t r s' := s.op t = .idle ∧ ∃ o, s' = { s with op := Function.update s.op t o } ∧
    (o = .busy r ∨ ∃ a, Refused r a ∧ o = .done r a)
  step s t s' := PoolStep pages pageLength s t s'
  ret s t a s' := ∃ r, s.op t = .done r a ∧ s' = { s with op := Function.update s.op t .idle }

/-- The call each thread is in. -/
def poolPending {pages pageLength : Nat} {init : (Nat → Option Slot) → Prop} :
    Pending (poolObj pages pageLength τ init) where
  request s t := (s.op t).request
  init h t := by
    rw [h.2 t]
    rfl
  call {_ _ r _} h := by
    obtain ⟨-, o, rfl, ho⟩ := h
    funext t'
    have hreq : o.request = some r := by
      rcases ho with rfl | ⟨a, -, rfl⟩
      · rfl
      · rfl
    exact (Function.apply_update (fun _ => PoolOp.request) _ _ _ t').trans (by rw [hreq])
  step h := by
    funext t'
    cases h with
    | found hop hslot hoff =>
        refine (Function.apply_update (fun _ => PoolOp.request) _ _ _ t').trans ?_
        exact congrFun (Function.update_eq_self_iff.mpr (by rw [hop]; rfl)) t'
    | missed hop =>
        refine (Function.apply_update (fun _ => PoolOp.request) _ _ _ t').trans ?_
        exact congrFun (Function.update_eq_self_iff.mpr (by rw [hop]; rfl)) t'
    | stored hop hi hoff hout hpattern =>
        refine (Function.apply_update (fun _ => PoolOp.request) _ _ _ t').trans ?_
        exact congrFun (Function.update_eq_self_iff.mpr (by rw [hop]; rfl)) t'
  ret h := by
    obtain ⟨r, hdone, rfl⟩ := h
    refine ⟨⟨r, by rw [hdone]; rfl⟩, ?_⟩
    funext t'
    exact Function.apply_update (fun _ => PoolOp.request) _ _ _ t'

end

end StressAppTest
