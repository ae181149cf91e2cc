import Mathlib.Logic.Relation
import Mathlib.Logic.Function.Basic

/-!
# Threads that call a shared object

A shared `Obj` answers requests of threads: a request is accepted (`call`), worked on in
any number of internal steps of the calling thread (`step`), and answered (`ret`). A
`Client` is the program the threads run: at a control state it either waits for the answer
to one request (`call`), or takes a local step that may read and write a world shared by
all threads. `Step` interleaves them without any restriction on the order.

* `Reachable.inv` is the invariant rule.
* `Simulation` relates two objects under an invariant of the concrete system; clients
  cannot tell them apart (`Simulation.reachable`): every reachable state of the concrete
  system maps to a reachable state of the abstract one with the same control states and
  the same world.
-/

namespace Threads

/-- A shared object with threads `τ`, requests `ρ` and answers `α`. -/
structure Obj (τ ρ α : Type) where
  State : Type
  init : State → Prop
  call : State → τ → ρ → State → Prop
  step : State → τ → State → Prop
  ret : State → τ → α → State → Prop

/-- The program run by the threads, with control states `κ` and a shared world `ω`. -/
structure Client (τ ρ α κ ω : Type) where
  init : (τ → κ) → ω → Prop
  call : κ → Option ρ
  resume : τ → κ → α → κ
  step : τ → κ → ω → κ → ω → Prop
  env : ω → ω → Prop

variable {τ ρ α κ ω : Type} [DecidableEq τ]

/-- A state of the whole system. -/
structure Sys (O : Obj τ ρ α) (κ ω : Type) where
  obj : O.State
  ctl : τ → κ
  world : ω

/-- One step of one thread, or of the environment of the world. -/
inductive Step (O : Obj τ ρ α) (C : Client τ ρ α κ ω) : Sys O κ ω → Sys O κ ω → Prop
  | call {s : Sys O κ ω} {t : τ} {r : ρ} {o : O.State} (hcall : C.call (s.ctl t) = some r)
      (h : O.call s.obj t r o) : Step O C s ⟨o, s.ctl, s.world⟩
  | obj {s : Sys O κ ω} {t : τ} {o : O.State} (h : O.step s.obj t o) :
      Step O C s ⟨o, s.ctl, s.world⟩
  | ret {s : Sys O κ ω} {t : τ} {a : α} {o : O.State} (h : O.ret s.obj t a o) :
      Step O C s ⟨o, Function.update s.ctl t (C.resume t (s.ctl t) a), s.world⟩
  | loc {s : Sys O κ ω} {t : τ} {k : κ} {w : ω} (hcall : C.call (s.ctl t) = none)
      (h : C.step t (s.ctl t) s.world k w) : Step O C s ⟨s.obj, Function.update s.ctl t k, w⟩
  | env {s : Sys O κ ω} {w : ω} (h : C.env s.world w) : Step O C s ⟨s.obj, s.ctl, w⟩

def Initial (O : Obj τ ρ α) (C : Client τ ρ α κ ω) (s : Sys O κ ω) : Prop :=
  O.init s.obj ∧ C.init s.ctl s.world

/-- The states of all runs, in any interleaving. -/
def Reachable (O : Obj τ ρ α) (C : Client τ ρ α κ ω) (s : Sys O κ ω) : Prop :=
  ∃ s₀, Initial O C s₀ ∧ Relation.ReflTransGen (Step O C) s₀ s

theorem Reachable.init {O : Obj τ ρ α} {C : Client τ ρ α κ ω} {s : Sys O κ ω}
    (h : Initial O C s) : Reachable O C s := ⟨s, h, .refl⟩

theorem Reachable.step {O : Obj τ ρ α} {C : Client τ ρ α κ ω} {s s' : Sys O κ ω}
    (h : Reachable O C s) (hs : Step O C s s') : Reachable O C s' := by
  obtain ⟨s₀, h0, hrun⟩ := h
  exact ⟨s₀, h0, hrun.tail hs⟩

/-- **Invariant rule.** -/
theorem Reachable.inv {O : Obj τ ρ α} {C : Client τ ρ α κ ω} {I : Sys O κ ω → Prop}
    (hinit : ∀ s, Initial O C s → I s) (hstep : ∀ s s', I s → Step O C s s' → I s')
    {s : Sys O κ ω} (h : Reachable O C s) : I s := by
  obtain ⟨s₀, h0, hrun⟩ := h
  induction hrun with
  | refl => exact hinit s₀ h0
  | tail _ hs ih => exact hstep _ _ ih hs

/-- A map from the states of one object to those of another that turns every step taken
under the invariant `I` into a step with the same outside behaviour, or into none. -/
structure Simulation (A B : Obj τ ρ α) (C : Client τ ρ α κ ω) (I : Sys A κ ω → Prop) where
  map : A.State → B.State
  init : ∀ a, A.init a → B.init (map a)
  call : ∀ {s : Sys A κ ω} {t : τ} {r : ρ} {o : A.State}, I s → C.call (s.ctl t) = some r →
    A.call s.obj t r o → B.call (map s.obj) t r (map o)
  step : ∀ {s : Sys A κ ω} {t : τ} {o : A.State}, I s → A.step s.obj t o →
    map o = map s.obj ∨ B.step (map s.obj) t (map o)
  ret : ∀ {s : Sys A κ ω} {t : τ} {a : α} {o : A.State}, I s → A.ret s.obj t a o →
    B.ret (map s.obj) t a (map o)

/-- A step of the simulated object is one of the simulating object, or leaves it as it is. -/
theorem Simulation.step_or_eq {A B : Obj τ ρ α} {C : Client τ ρ α κ ω} {I : Sys A κ ω → Prop}
    (S : Simulation A B C I) {s s' : Sys A κ ω} (hI : I s) (h : Step A C s s') :
    Step B C ⟨S.map s.obj, s.ctl, s.world⟩ ⟨S.map s'.obj, s'.ctl, s'.world⟩ ∨
      (S.map s'.obj = S.map s.obj ∧ s'.ctl = s.ctl ∧ s'.world = s.world) := by
  cases h with
  | call hcall h => exact .inl (.call hcall (S.call hI hcall h))
  | obj h =>
      rcases S.step hI h with heq | hstep
      · exact .inr ⟨heq, rfl, rfl⟩
      · exact .inl (.obj hstep)
  | ret h => exact .inl (.ret (S.ret hI h))
  | loc hcall h => exact .inl (.loc hcall h)
  | env h => exact .inl (.env h)

/-- Clients cannot tell a simulated object from the simulating one. -/
theorem Simulation.reachable {A B : Obj τ ρ α} {C : Client τ ρ α κ ω} {I : Sys A κ ω → Prop}
    (S : Simulation A B C I) (hI : ∀ s, Reachable A C s → I s) {s : Sys A κ ω}
    (h : Reachable A C s) : Reachable B C ⟨S.map s.obj, s.ctl, s.world⟩ := by
  obtain ⟨s₀, h0, hrun⟩ := h
  induction hrun with
  | refl => exact .init ⟨S.init _ h0.1, h0.2⟩
  | @tail s s' hrun hs ih =>
      rcases S.step_or_eq (hI s ⟨s₀, h0, hrun⟩) hs with hstep | ⟨hobj, hctl, hworld⟩
      · exact ih.step hstep
      · rw [hobj, hctl, hworld]
        exact ih

end Threads
