import StressAppTest.Library.Threads

/-!
# Program texts and contracts

A `Script` is the text of a thread up to the end of one pass of its main loop: requests to
the shared object, and local steps that read and write the world under some choice. Scripts
form a monad, so a loop body is written as the source has it.

A `Contract` says what a thread may do in terms of typestates: which requests it may make in
a typestate, what it knows after an answer, and what its local steps may do to the world. The
rules `follows_bind`, `follows_call`, `follows_loc` prove that a script keeps a contract
(`Contract.Follows`), one operation at a time.

* `Package.step`: a step of threads whose scripts keep their contracts is a step of the
  abstract system in which each thread is replaced by its typestate (`Contract.Step`).
* `Package.reachable`: an invariant of the abstract system holds along every run.
-/

namespace Threads

/-- The text of a thread: an answer is awaited in `call`, the choice of a local step is any
number. -/
inductive Script (ρ α ω β : Type)
  | ret (b : β)
  | call (r : ρ) (k : α → Script ρ α ω β)
  | loc (next : Nat → ω → ω) (k : Nat → ω → Script ρ α ω β)

namespace Script

variable {ρ α ω β γ : Type}

def bind : Script ρ α ω β → (β → Script ρ α ω γ) → Script ρ α ω γ
  | .ret b, f => f b
  | .call r k, f => .call r fun a => (k a).bind f
  | .loc next k, f => .loc next fun n w => (k n w).bind f

instance : Monad (Script ρ α ω) where
  pure := .ret
  bind := .bind

end Script

/-- The end of one pass of a main loop: the loop goes round again, or the thread ends. -/
inductive Turn (J : Type)
  | again (job : J)
  | exit (status : Bool)

/-- A loop invariant `L` and an exit condition `X`, in typestates. -/
def Turn.Ends {J S : Type} (L : J → S → Prop) (X : Bool → S → Prop) : Turn J → S → Prop
  | .again j, s => L j s
  | .exit b, s => X b s

/-- The client runs the loop `body`: its control states are scripts. -/
structure Runs {τ ρ α κ ω J : Type} (C : Client τ ρ α κ ω)
    (body : J → Script ρ α ω (Turn J)) where
  script : κ → Script ρ α ω (Turn J)
  call : ∀ {k r}, C.call k = some r →
    ∃ c, script k = .call r c ∧ ∀ t a, script (C.resume t k a) = c a
  step : ∀ {t k w k' w'}, C.step t k w k' w' →
    (∃ next c n, script k = .loc next c ∧ w' = next n w ∧ script k' = c n w) ∨
    (∃ job, script k = .ret (.again job) ∧ w' = w ∧ script k' = body job)

/-- The request each thread of an object waits for. -/
structure Pending {τ ρ α : Type} [DecidableEq τ] (O : Obj τ ρ α) where
  request : O.State → τ → Option ρ
  init : ∀ {o}, O.init o → ∀ t, request o t = none
  call : ∀ {o t r o'}, O.call o t r o' → request o' = Function.update (request o) t (some r)
  step : ∀ {o t o'}, O.step o t o' → request o' = request o
  ret : ∀ {o t a o'}, O.ret o t a o' →
    (∃ r, request o t = some r) ∧ request o' = Function.update (request o) t none

/-- What a thread may do, by typestates `S`. -/
structure Contract (ρ α ω S : Type) where
  pre : S → ρ → Prop
  post : S → ρ → α → S → Prop
  view : S → ω → Prop
  move : S → ω → ω → S → Prop

namespace Contract

variable {ρ α ω S β γ : Type} (K : Contract ρ α ω S)

/-- The script keeps the contract from typestate `s` on and ends in `Q`. -/
def Follows (Q : β → S → Prop) : Script ρ α ω β → S → Prop
  | .ret b, s => Q b s
  | .call r k, s => K.pre s r ∧ ∀ a s', K.post s r a s' → Follows Q (k a) s'
  | .loc next k, s => ∀ n w, K.view s w → ∃ s', K.move s w (next n w) s' ∧ Follows Q (k n w) s'

variable {K}

/-- **Sequencing.** -/
theorem follows_bind {Q : β → S → Prop} {Q' : γ → S → Prop} {x : Script ρ α ω β}
    {f : β → Script ρ α ω γ} {s : S} (hx : K.Follows Q x s)
    (hf : ∀ b s', Q b s' → K.Follows Q' (f b) s') : K.Follows Q' (x >>= f) s := by
  change K.Follows Q' (x.bind f) s
  induction x generalizing s with
  | ret b => exact hf b s hx
  | call r k ih => exact ⟨hx.1, fun a s' hpost => ih a (hx.2 a s' hpost)⟩
  | loc next k ih =>
      intro n w hview
      obtain ⟨s', hmove, hk⟩ := hx n w hview
      exact ⟨s', hmove, ih n w hk⟩

/-- A postcondition for an answer that may be missing. -/
def onOption (found : β → S → Prop) (missing : S → Prop) : Option β → S → Prop
  | none, s => missing s
  | some b, s => found b s

/-- **Consequence.** -/
theorem Follows.mono {Q Q' : β → S → Prop} {x : Script ρ α ω β} {s : S} (h : K.Follows Q x s)
    (hQ : ∀ b s', Q b s' → Q' b s') : K.Follows Q' x s := by
  induction x generalizing s with
  | ret b => exact hQ b s h
  | call r k ih => exact ⟨h.1, fun a s' hpost => ih a (h.2 a s' hpost)⟩
  | loc next k ih =>
      intro n w hview
      obtain ⟨s', hmove, hk⟩ := h n w hview
      exact ⟨s', hmove, ih n w hk⟩

end Contract

/-! ## The abstract system -/

section System

variable {τ ρ α ω S : Type} [DecidableEq τ] {O : Obj τ ρ α}

/-- The steps of the system in which each thread is replaced by its typestate. -/
inductive Contract.Step (K : Contract ρ α ω S) (P : Pending O) (env : ω → ω → Prop) :
    Sys O S ω → Sys O S ω → Prop
  | call {s : Sys O S ω} {t : τ} {r : ρ} {o : O.State} (hpre : K.pre (s.ctl t) r)
      (h : O.call s.obj t r o) : Step K P env s ⟨o, s.ctl, s.world⟩
  | obj {s : Sys O S ω} {t : τ} {o : O.State} (h : O.step s.obj t o) :
      Step K P env s ⟨o, s.ctl, s.world⟩
  | ret {s : Sys O S ω} {t : τ} {r : ρ} {a : α} {o : O.State} {x : S}
      (hreq : P.request s.obj t = some r) (h : O.ret s.obj t a o)
      (hpost : K.post (s.ctl t) r a x) :
      Step K P env s ⟨o, Function.update s.ctl t x, s.world⟩
  | loc {s : Sys O S ω} {t : τ} {w : ω} {x : S} (hreq : P.request s.obj t = none)
      (hview : K.view (s.ctl t) s.world) (hmove : K.move (s.ctl t) s.world w x) :
      Step K P env s ⟨s.obj, Function.update s.ctl t x, w⟩
  | env {s : Sys O S ω} {w : ω} (h : env s.world w) : Step K P env s ⟨s.obj, s.ctl, w⟩

variable {κ J : Type} {C : Client τ ρ α κ ω} {body : J → Script ρ α ω (Turn J)}

/-- A contract kept by the loop `body`, with the loop invariant `L` and the exit condition
`X`, and an invariant `I` of the abstract system under which threads know what their
typestates say and every answer is covered. -/
structure Package (O : Obj τ ρ α) (C : Client τ ρ α κ ω) (body : J → Script ρ α ω (Turn J))
    (S : Type) where
  runs : Runs C body
  pending : Pending O
  contract : Contract ρ α ω S
  L : J → S → Prop
  X : Bool → S → Prop
  I : Sys O S ω → Prop
  turn : ∀ job s w, L job s → contract.view s w →
    ∃ s', contract.move s w w s' ∧
      contract.Follows (Turn.Ends L X) (body job) s'
  view : ∀ {s}, I s → ∀ t, pending.request s.obj t = none → contract.view (s.ctl t) s.world
  answered : ∀ {s t r a o}, I s → pending.request s.obj t = some r → O.ret s.obj t a o →
    ∃ x, contract.post (s.ctl t) r a x
  keeps : ∀ {s s'}, I s → contract.Step pending C.env s s' → I s'

namespace Package

variable (A : Package O C body S)

/-- The abstract state `a` describes the state `s`. -/
structure Describes (s : Sys O κ ω) (a : Sys O S ω) : Prop where
  obj : a.obj = s.obj
  world : a.world = s.world
  follows : ∀ t, A.contract.Follows (Turn.Ends A.L A.X) (A.runs.script (s.ctl t)) (a.ctl t)
  request : ∀ t r, A.pending.request s.obj t = some r → C.call (s.ctl t) = some r
  inv : A.I a

variable {A}

/-- **Steps are described by steps.** -/
theorem step {s s' : Sys O κ ω} {a : Sys O S ω} (h : A.Describes s a) (hs : Step O C s s') :
    ∃ a', A.contract.Step A.pending C.env a a' ∧ A.Describes s' a' := by
  obtain ⟨obj, ctl, world⟩ := a
  obtain ⟨ho, hw, hf, hr, hI⟩ := h
  dsimp only at ho hw hf
  subst ho hw
  cases hs with
  | @call t r o hcall h =>
      obtain ⟨c, hscript, -⟩ := A.runs.call hcall
      have hft := hf t
      rw [hscript] at hft
      have hstep : A.contract.Step A.pending C.env ⟨s.obj, ctl, s.world⟩ ⟨o, ctl, s.world⟩ :=
        .call hft.1 h
      refine ⟨_, hstep, rfl, rfl, hf, fun t' r' hreq => ?_, A.keeps hI hstep⟩
      rw [A.pending.call h] at hreq
      by_cases ht : t' = t
      · subst ht
        rw [Function.update_self, Option.some.injEq] at hreq
        exact hreq ▸ hcall
      · rw [Function.update_of_ne ht] at hreq
        exact hr t' r' hreq
  | @obj t o h =>
      have hstep : A.contract.Step A.pending C.env ⟨s.obj, ctl, s.world⟩ ⟨o, ctl, s.world⟩ := .obj h
      refine ⟨_, hstep, rfl, rfl, hf, fun t' r' hreq => ?_, A.keeps hI hstep⟩
      rw [A.pending.step h] at hreq
      exact hr t' r' hreq
  | @ret t ans o h =>
      obtain ⟨⟨r, hreq⟩, hnext⟩ := A.pending.ret h
      obtain ⟨c, hscript, hresume⟩ := A.runs.call (hr t r hreq)
      obtain ⟨x, hpost⟩ := A.answered hI hreq h
      have hft := hf t
      rw [hscript] at hft
      have hstep : A.contract.Step A.pending C.env ⟨s.obj, ctl, s.world⟩
          ⟨o, Function.update ctl t x, s.world⟩ := .ret hreq h hpost
      refine ⟨_, hstep, rfl, rfl, fun t' => ?_, fun t' r' hreq' => ?_, A.keeps hI hstep⟩
      · by_cases ht : t' = t
        · subst ht
          simpa [hresume] using hft.2 ans x hpost
        · simpa [ht] using hf t'
      · dsimp only at hreq' ⊢
        rw [hnext] at hreq'
        by_cases ht : t' = t
        · subst ht
          simp at hreq'
        · rw [Function.update_of_ne ht] at hreq' ⊢
          exact hr t' r' hreq'
  | @loc t k w hcall h =>
      have hnone : A.pending.request s.obj t = none := by
        cases hreq : A.pending.request s.obj t with
        | none => rfl
        | some r => exact absurd (hr t r hreq) (by simp [hcall])
      have hview := A.view hI t hnone
      have hmove : ∃ x, A.contract.move (ctl t) s.world w x ∧
          A.contract.Follows (Turn.Ends A.L A.X) (A.runs.script k) x := by
        have hft := hf t
        rcases A.runs.step h with ⟨next, c, n, hscript, rfl, hk⟩ | ⟨job, hscript, rfl, hk⟩
        · rw [hscript] at hft
          rw [hk]
          exact hft n s.world hview
        · rw [hscript] at hft
          rw [hk]
          exact A.turn job (ctl t) _ hft hview
      obtain ⟨x, hmove, hfx⟩ := hmove
      have hstep : A.contract.Step A.pending C.env ⟨s.obj, ctl, s.world⟩
          ⟨s.obj, Function.update ctl t x, w⟩ := .loc hnone hview hmove
      refine ⟨_, hstep, rfl, rfl, fun t' => ?_, fun t' r' hreq => ?_, A.keeps hI hstep⟩
      · by_cases ht : t' = t
        · subst ht
          simpa using hfx
        · simpa [ht] using hf t'
      · by_cases ht : t' = t
        · subst ht
          exact absurd hreq (by simp [hnone])
        · simpa [ht] using hr t' r' hreq
  | @env w h =>
      have hstep : A.contract.Step A.pending C.env ⟨s.obj, ctl, s.world⟩ ⟨s.obj, ctl, w⟩ := .env h
      exact ⟨_, hstep, rfl, rfl, hf, hr, A.keeps hI hstep⟩

/-- **Runs are described.** -/
theorem reachable (hinit : ∀ s, Initial O C s → ∃ a, A.Describes s a) {s : Sys O κ ω}
    (h : Reachable O C s) : ∃ a, A.Describes s a := by
  refine h.inv (I := fun s => ∃ a, A.Describes s a) hinit fun s s' hs hstep => ?_
  obtain ⟨a, ha⟩ := hs
  obtain ⟨a', -, ha'⟩ := step ha hstep
  exact ⟨a', ha'⟩

end Package

end System

end Threads
