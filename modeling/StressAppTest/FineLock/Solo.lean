import StressAppTest.FineLock.Interleaving
import StressAppTest.Workers.Program

/-!
# A worker by itself

`Solo` runs the script of one worker with every call taken as a whole: a get is
`getRandomWithPredicateTag`, a put is `PutValid` or `PutEmpty`. Such a run is a run of the
system with a single thread (`Solo.steps`), so it is enough to exhibit a bad run of one worker.
-/

namespace StressAppTest.FineLock

open Threads FineLockPEQueue

/-- `PutValid` / `PutEmpty` -/
def FineLockPEQueue.put (Q : FineLockPEQueue) (kind : PageKind) (pe : PageEntry) (s : Pages) :
    Bool × Pages :=
  match kind with
  | .valid => Q.putValid pe s
  | .empty => Q.putEmpty pe s

/-- The script runs from one state to another and ends with the given result. -/
inductive Solo {β : Type} (Q : FineLockPEQueue) : Pages → World → Work β → Pages → World → β → Prop
  | ret {p : Pages} {w : World} {b : β} : Solo Q p w (.ret b) p w b
  | get {p p' p'' : Pages} {w w' : World} {kind : PageKind} {tag : Word32} {r : Option PageEntry}
      {c : Response → Work β} {b : β} {random64 : Nat} (hrandom : random64 < 2 ^ 64)
      (hget : Q.getRandomWithPredicateTag kind tag random64 p = some (r, p'))
      (h : Solo Q p' w (c (.entry r)) p'' w' b) : Solo Q p w (.call (.get kind tag) c) p'' w' b
  | put {p p' p'' : Pages} {w w' : World} {kind : PageKind} {pe : PageEntry} {ok : Bool}
      {c : Response → Work β} {b : β} (hput : Q.put kind pe p = (ok, p'))
      (h : Solo Q p' w (c (.status ok)) p'' w' b) : Solo Q p w (.call (.put kind pe) c) p'' w' b
  | loc {p p'' : Pages} {w w' : World} {next : Nat → World → World} {c : Nat → World → Work β} {b : β}
      (n : Nat) (h : Solo Q p (next n w) (c n w) p'' w' b) : Solo Q p w (.loc next c) p'' w' b

theorem Solo.bind {β γ : Type} {Q : FineLockPEQueue} {p p' p'' : Pages} {w w' w'' : World}
    {x : Work β} {f : β → Work γ} {b : β} {b' : γ} (hx : Solo Q p w x p' w' b)
    (hf : Solo Q p' w' (f b) p'' w'' b') : Solo Q p w (x >>= f) p'' w'' b' := by
  change Solo Q p w (x.bind f) p'' w'' b'
  induction hx with
  | ret => exact hf
  | get hrandom hget _ ih => exact .get hrandom hget (ih hf)
  | put hput _ ih => exact .put hput (ih hf)
  | loc n _ ih => exact .loc n (ih hf)

/-- One local step. -/
theorem Solo.act {β γ : Type} {Q : FineLockPEQueue} {p p' : Pages} {w w' : World}
    {f : Nat → World → World × β} {g : β → Work γ} {b : γ} (n : Nat)
    (h : Solo Q p (f n w).1 (g (f n w).2) p' w' b) : Solo Q p w (Work.act f >>= g) p' w' b :=
  .loc n h

/-! ## Calls taken as a whole -/

theorem Alone.trans {Q : FineLockPEQueue} {x y z : Pages × Op} (h : Alone Q x y) (h' : Alone Q y z) :
    Alone Q x z := by
  induction h with
  | refl => exact h'
  | head hm _ ih => exact .head hm (ih h')

theorem get_alone {Q : FineLockPEQueue} {kind : PageKind} {tag : Word32} {random64 : Nat}
    {p p' : Pages} {r : Option PageEntry}
    (h : Q.getRandomWithPredicateTag kind tag random64 p = some (r, p')) :
    Alone Q (p, Q.enter random64 (.get kind tag)) (p', .done (.get kind tag) (.entry r)) := by
  unfold getRandomWithPredicateTag at h
  simp only [enter]
  split at h
  · next hzero =>
    obtain ⟨rfl, rfl⟩ := Prod.mk.inj (Option.some.inj h)
    rw [if_pos hzero]
    exact .refl _
  · next hzero =>
    rw [if_neg hzero]
    have halone := microStep_alone le_rfl h
    rwa [Nat.sub_self] at halone

theorem put_alone {Q : FineLockPEQueue} {kind : PageKind} {pe : PageEntry} {random64 : Nat}
    {p p' : Pages} {ok : Bool} (h : Q.put kind pe p = (ok, p')) :
    Alone Q (p, Q.enter random64 (.put kind pe)) (p', .done (.put kind pe) (.status ok)) := by
  cases kind with
  | valid =>
      simp only [put, putValid] at h
      simp only [enter, beq_self_eq_true, Bool.true_and]
      split at h
      · next hbad =>
        obtain ⟨rfl, rfl⟩ := Prod.mk.inj h
        rw [if_pos hbad]
        exact .refl _
      · next hgood =>
        rw [if_neg hgood]
        split at h
        · next hlt =>
          obtain ⟨rfl, rfl⟩ := Prod.mk.inj h
          rw [if_pos hlt]
          exact .head rfl (.head rfl (.refl _))
        · next hge =>
          obtain ⟨rfl, rfl⟩ := Prod.mk.inj h
          rw [if_neg hge]
          exact .refl _
  | empty =>
      simp only [put, putEmpty] at h
      simp only [enter]
      by_cases hzero : Q.qSize = 0
      · rw [if_pos hzero] at h
        obtain ⟨rfl, rfl⟩ := Prod.mk.inj h
        rw [if_pos (by simp [hzero])]
        exact .refl _
      · rw [if_neg hzero] at h
        rw [if_neg (by simpa using hzero)]
        split at h
        · next hlt =>
          obtain ⟨rfl, rfl⟩ := Prod.mk.inj h
          rw [if_pos hlt]
          -- the entry is stored first, then its pattern is erased
          refine .head rfl (.head rfl (.head ?_ (.refl _)))
          simp [microStep, Pages.setEntry, Pages.setLock]
        · next hge =>
          obtain ⟨rfl, rfl⟩ := Prod.mk.inj h
          rw [if_neg hge]
          exact .refl _

/-! ## Runs of a single thread -/

section Runs

variable {τ : Type} [DecidableEq τ] [Unique τ] {Q : FineLockPEQueue} {init : Pages → Prop} {sat : Sat}
  {jobs : τ → Job} {W : World → Prop} {env : World → World → Prop}

/-- A state with one thread. -/
def alone (τ : Type) [DecidableEq τ] (Q : FineLockPEQueue) (init : Pages → Prop) (p : Pages) (o : Op) (k : Ctl) (w : World) :
    Sys (Q.obj τ init) Ctl World := ⟨⟨p, fun _ => o⟩, fun _ => k, w⟩

theorem update_default {α : Type} (f : τ → α) (x : α) : Function.update f default x = fun _ => x := by
  ext t
  rw [Unique.eq_default t, Function.update_self]

theorem steps_of_alone {p p' : Pages} {o o' : Op} {k : Ctl} {w : World}
    (h : Alone Q (p, o) (p', o')) :
    Relation.ReflTransGen (Step (Q.obj τ init) (workers sat jobs W env))
      (alone τ Q init p o k w) (alone τ Q init p' o' k w) := by
  generalize hx : (p, o) = x at h
  generalize hy : (p', o') = y at h
  induction h generalizing p o with
  | refl =>
      obtain ⟨rfl, rfl⟩ := Prod.mk.inj (hx.trans hy.symm)
      exact .refl
  | @head s o₁ z _ hm _ ih =>
      obtain ⟨rfl, rfl⟩ := Prod.mk.inj hx
      refine .head ?_ (ih rfl hy)
      have hstep : Step (Q.obj τ init) (workers sat jobs W env) (alone τ Q init p o k w)
          ⟨⟨z.1, Function.update (fun _ => o) default z.2⟩, fun _ => k, w⟩ :=
        .obj (t := default) ⟨z.1, z.2, hm, rfl⟩
      rwa [update_default] at hstep

variable (init jobs W env)

/-- **A run by itself is a run.** -/
theorem Solo.steps {p p' : Pages} {k : Ctl} {w w' : World} {o : Turn Job}
    (h : Solo Q p w k.script p' w' o) : ∃ k', k'.script = .ret o ∧
      Relation.ReflTransGen (Step (Q.obj τ init) (workers sat jobs W env))
        (alone τ Q init p .idle k w) (alone τ Q init p' .idle k' w') := by
  generalize hscript : k.script = x at h
  have hcall {k k' : Ctl} {p p' : Pages} {w : World} {r : Request} {a : Response} {random64 : Nat}
      {c : Response → Work (Turn Job)} (hk : k.script = .call r c) (hrandom : random64 < 2 ^ 64)
      (halone : Alone Q (p, Q.enter random64 r) (p', .done r a)) (hk' : k.resume a = k') :
      Relation.ReflTransGen (Step (Q.obj τ init) (workers sat jobs W env))
        (alone τ Q init p .idle k w) (alone τ Q init p' .idle k' w) := by
    subst hk'
    have henter : Step (Q.obj τ init) (workers sat jobs W env) (alone τ Q init p .idle k w)
        (alone τ Q init p (Q.enter random64 r) k w) := by
      rw [alone, alone, ← update_default (fun _ => Op.idle) (Q.enter random64 r)]
      exact .call (t := default) (by simp [workers, Ctl.call, hk]) ⟨rfl, random64, hrandom, rfl⟩
    have hret : Step (Q.obj τ init) (workers sat jobs W env)
        (alone τ Q init p' (.done r a) k w) (alone τ Q init p' .idle (k.resume a) w) := by
      rw [alone, alone, ← update_default (fun _ => Op.done r a) Op.idle,
        ← update_default (fun _ => k) (k.resume a)]
      exact .ret (t := default) ⟨r, rfl, rfl⟩
    exact .head henter ((steps_of_alone halone).tail hret)
  induction h generalizing k with
  | ret => exact ⟨k, hscript, .refl⟩
  | get hrandom hget _ ih =>
      obtain ⟨k', hk', hrun⟩ := ih (Ctl.resume_of_call _ hscript).1
      exact ⟨k', hk', (hcall hscript hrandom (get_alone hget) rfl).trans hrun⟩
  | put hput _ ih =>
      obtain ⟨k', hk', hrun⟩ := ih (Ctl.resume_of_call _ hscript).1
      exact ⟨k', hk', (hcall hscript (Nat.two_pow_pos 64) (put_alone hput) rfl).trans hrun⟩
  | @loc p p'' w w' next c b n _ ih =>
      have hnext : (k.next sat n w).isSome := Ctl.isSome_next.mpr (.inl ⟨next, c, hscript⟩)
      obtain ⟨⟨k₁, w₁⟩, hk₁⟩ := Option.isSome_iff_exists.mp hnext
      rcases Ctl.next_cases hk₁ with ⟨f, c', hs, rfl, hk, -⟩ | ⟨job, hs, -⟩
      · obtain ⟨rfl, rfl⟩ := Script.loc.inj (hs.symm.trans hscript)
        obtain ⟨k', hk', hrun⟩ := ih hk
        refine ⟨k', hk', .head ?_ hrun⟩
        rw [alone, alone, ← update_default (fun _ => k) k₁]
        exact .loc (t := default) (by simp [workers, Ctl.call, hscript]) ⟨n, hk₁⟩
      · rw [hscript] at hs
        cases hs

/-- One pass of the main loop. -/
theorem Solo.turn {p p' : Pages} {k : Ctl} {w w' : World} {job : Job} {o : Turn Job}
    (hk : k.script = .ret (.again job)) (h : Solo Q p w (sat.body job) p' w' o) :
    ∃ k', k'.script = .ret o ∧
      Relation.ReflTransGen (Step (Q.obj τ init) (workers sat jobs W env))
        (alone τ Q init p .idle k w) (alone τ Q init p' .idle k' w') := by
  have hnext : (k.next sat 0 w).isSome := Ctl.isSome_next.mpr (.inr ⟨job, hk⟩)
  obtain ⟨⟨k₁, w₁⟩, hk₁⟩ := Option.isSome_iff_exists.mp hnext
  rcases Ctl.next_cases hk₁ with ⟨f, c', hs, -⟩ | ⟨job', hs, rfl, hbody, -⟩
  · rw [hk] at hs
    cases hs
  · obtain rfl : job' = job := by
      rw [hk] at hs
      cases hs
      rfl
    rw [← hbody] at h
    obtain ⟨k', hk', hrun⟩ := h.steps init jobs W env
    refine ⟨k', hk', .head ?_ hrun⟩
    rw [alone, alone, ← update_default (fun _ => k) k₁]
    exact .loc (t := default) (by simp [workers, Ctl.call, hk]) ⟨0, hk₁⟩

end Runs

end StressAppTest.FineLock
