import Mathlib.SetTheory.Ordinal.Rank
import Mathlib.Data.DFinsupp.WellFounded
import Mathlib.Algebra.Order.BigOperators.Group.Finset
import StressAppTest.Library.Script

/-!
# Runs that come to an end

A script ends when it has no infinite run in the worlds of a set `V` (`Ending`). Scripts are finite, so
only the passes of the main loop have to be bounded: `ending_of_follows` takes a contract whose loop
invariant is that the rest ends, and `ending_again` one under which every pass lowers a rank.

If the scripts of all threads end and every call of the object does (`CallsEnd`), then all runs of the
system are finite, whatever else changes the world in between (`acc_moves`). The measure is the
threads' ranks, which are ordinals, and below them the steps that the calls have left.
-/

namespace Threads

variable {τ ρ α κ ω J S : Type}

/-! ## Scripts -/

section Scripts

variable {V : ω → Prop} {body : J → Script ρ α ω (Turn J)} {K : Contract ρ α ω S}

/-- The steps of a thread in the worlds of `V`, with the answers of its calls. -/
inductive Next (V : ω → Prop) (body : J → Script ρ α ω (Turn J)) :
    Script ρ α ω (Turn J) → Script ρ α ω (Turn J) → Prop
  | call {r : ρ} {k : α → Script ρ α ω (Turn J)} (a : α) : Next V body (.call r k) (k a)
  | loc {next : Nat → ω → ω} {k : Nat → ω → Script ρ α ω (Turn J)} (n : Nat) {w : ω} (hw : V w) :
      Next V body (.loc next k) (k n w)
  | again (job : J) : Next V body (.ret (.again job)) (body job)

/-- The script has no infinite run. -/
abbrev Ending (V : ω → Prop) (body : J → Script ρ α ω (Turn J)) (x : Script ρ α ω (Turn J)) : Prop :=
  Acc (fun y x => Next V body x y) x

/-- **A script ends if its next pass does.** -/
theorem ending_of_follows (hview : ∀ s w, V w → K.view s w) (hpost : ∀ s r a, ∃ s', K.post s r a s')
    {L : J → S → Prop} {X : Bool → S → Prop} (hL : ∀ job s, L job s → Ending V body (.ret (.again job)))
    {x : Script ρ α ω (Turn J)} {s : S} (h : K.Follows (Turn.Ends L X) x s) : Ending V body x := by
  induction x generalizing s with
  | ret b =>
      cases b with
      | again job => exact hL job s h
      | exit status =>
          refine ⟨_, fun y hy => ?_⟩
          cases hy
  | call r k ih =>
      refine ⟨_, fun y hy => ?_⟩
      cases hy with
      | call a =>
          obtain ⟨s', hs'⟩ := hpost s r a
          exact ih a (h.2 a s' hs')
  | loc next k ih =>
      refine ⟨_, fun y hy => ?_⟩
      cases hy with
      | @loc _ _ n w hw =>
          obtain ⟨s', -, hk⟩ := h n w (hview s w hw)
          exact ih n w hk

/-- **Loops end whose passes lower a rank.** -/
theorem ending_again (hview : ∀ s w, V w → K.view s w) (hpost : ∀ s r a, ∃ s', K.post s r a s')
    (rank : J → Nat) {X : Bool → S → Prop}
    (h : ∀ job, ∃ s, K.Follows (Turn.Ends (fun job' _ => rank job' < rank job) X) (body job) s) (job : J) :
    Ending V body (.ret (.again job)) := by
  induction hn : rank job using Nat.strong_induction_on generalizing job with
  | h n ih =>
      refine ⟨_, fun y hy => ?_⟩
      cases hy
      obtain ⟨s, hs⟩ := h job
      exact ending_of_follows hview hpost (fun job' _ hlt => ih _ (hn ▸ hlt) job' rfl) hs

open Classical in
/-- How long a script may still run. -/
noncomputable def runRank (V : ω → Prop) (body : J → Script ρ α ω (Turn J)) (x : Script ρ α ω (Turn J)) :
    Ordinal :=
  if h : Ending V body x then Acc.rank h else 0

theorem runRank_lt {x y : Script ρ α ω (Turn J)} (h : Ending V body x) (hnext : Next V body x y) :
    runRank V body y < runRank V body x := by
  have hy : Ending V body y := h.inv hnext
  unfold runRank
  rw [dif_pos h, dif_pos hy]
  exact Acc.rank_lt_of_rel h hnext

end Scripts

/-! ## Systems -/

/-- An object whose calls end: the steps a thread has left in its call, if it is in one. -/
structure CallsEnd [DecidableEq τ] (O : Obj τ ρ α) where
  inv : O.State → Prop
  left : O.State → τ → Option Nat
  bound : Nat
  call : ∀ {o t r o'}, O.call o t r o' →
    left o t = none ∧ ∃ n ≤ bound, left o' = Function.update (left o) t (some n)
  step : ∀ {o t o'}, inv o → O.step o t o' →
    ∃ n m, left o t = some n ∧ m < n ∧ left o' = Function.update (left o) t (some m)

/-- The same threads in a world that they alone change. -/
def Client.alone (C : Client τ ρ α κ ω) : Client τ ρ α κ ω := { C with env := fun _ _ => False }

variable [DecidableEq τ] {O : Obj τ ρ α} {C : Client τ ρ α κ ω}

/-- A step of a thread, after the world has changed by itself. -/
def Moves (O : Obj τ ρ α) (C : Client τ ρ α κ ω) (s s' : Sys O κ ω) : Prop :=
  ∃ w, Relation.ReflTransGen C.env s.world w ∧ Step O C.alone ⟨s.obj, s.ctl, w⟩ s'

theorem Step.of_alone {s s' : Sys O κ ω} (h : Step O C.alone s s') : Step O C s s' := by
  cases h with
  | call hcall h => exact .call hcall h
  | obj h => exact .obj h
  | ret h => exact .ret h
  | loc hcall h => exact .loc hcall h
  | env h => exact h.elim

/-- The steps that thread `t` has left in its call, or will have. -/
def CallsEnd.weight (E : CallsEnd O) (C : Client τ ρ α κ ω) (s : Sys O κ ω) (t : τ) : Nat :=
  match E.left s.obj t with
  | none => if (C.call (s.ctl t)).isSome then E.bound + 1 else 0
  | some n => n

theorem sum_weight_lt [Fintype τ] {f g : τ → Nat} {t : τ} (hlt : f t < g t) (hsame : ∀ u, u ≠ t → f u = g u) :
    ∑ u, f u < ∑ u, g u := by
  refine Finset.sum_lt_sum (fun u _ => ?_) ⟨t, Finset.mem_univ t, hlt⟩
  by_cases hu : u = t
  · subst hu
    exact hlt.le
  · exact (hsame u hu).le

/-- **Every run is finite.** -/
theorem acc_moves [Fintype τ] {body : J → Script ρ α ω (Turn J)} (R : Runs C body) (E : CallsEnd O)
    {V : ω → Prop} {I : Sys O κ ω → Prop} (hstep : ∀ s s', I s → Step O C s s' → I s')
    (hworld : ∀ s, I s → V s.world) (hend : ∀ s, I s → ∀ t, Ending V body (R.script (s.ctl t)))
    (hobj : ∀ s, I s → E.inv s.obj)
    (hret : ∀ s t a o, I s → O.ret s.obj t a o → ∃ r, C.call (s.ctl t) = some r) {s : Sys O κ ω} (hs : I s) :
    Acc (fun s' s => Moves O C s s') s := by
  let ranks (s : Sys O κ ω) (t : τ) : Ordinal := runRank V body (R.script (s.ctl t))
  let steps (s : Sys O κ ω) : Nat := ∑ t, E.weight C s t
  have hwf : WellFounded (Prod.Lex (fun f g : τ → Ordinal => f < g) fun m n : Nat => m < n) :=
    WellFounded.prod_lex wellFounded_lt wellFounded_lt
  induction hm : (ranks s, steps s) using hwf.induction generalizing s with
  | _ m ih =>
      refine ⟨_, fun s' hmove => ?_⟩
      obtain ⟨w, henv, hmove⟩ := hmove
      -- the world by itself changes nothing that is measured
      have hs₁ : I ⟨s.obj, s.ctl, w⟩ := by
        clear hmove
        induction henv with
        | refl => exact hs
        | tail _ hw hI => exact hstep _ _ hI (.env hw)
      refine ih _ ?_ (hstep _ _ hs₁ hmove.of_alone) rfl
      subst hm
      have hthread {t : τ} {k : κ} {o : O.State} {w' : ω}
          (hnext : Next V body (R.script (s.ctl t)) (R.script k)) :
          Prod.Lex (fun f g : τ → Ordinal => f < g) (fun m n : Nat => m < n)
            (ranks ⟨o, Function.update s.ctl t k, w'⟩, steps ⟨o, Function.update s.ctl t k, w'⟩)
            (ranks s, steps s) := by
        refine .left _ _ ?_
        have hranks : ranks ⟨o, Function.update s.ctl t k, w'⟩ =
            Function.update (ranks s) t (runRank V body (R.script k)) := by
          funext u
          exact Function.apply_update (fun _ k => runRank V body (R.script k)) s.ctl t k u
        rw [hranks, update_lt_self_iff]
        exact runRank_lt (hend s hs t) hnext
      have hcalls {t : τ} {o : O.State} {n : Nat} (hleft : E.left o = Function.update (E.left s.obj) t (some n))
          (hlt : n < E.weight C s t) :
          Prod.Lex (fun f g : τ → Ordinal => f < g) (fun m n : Nat => m < n)
            (ranks ⟨o, s.ctl, w⟩, steps ⟨o, s.ctl, w⟩) (ranks s, steps s) := by
        refine .right _ (sum_weight_lt (t := t) ?_ fun u hu => ?_)
        · simpa only [CallsEnd.weight, hleft, Function.update_self] using hlt
        · simp only [CallsEnd.weight, hleft, Function.update_of_ne hu]
      cases hmove with
      | @call t r o hcall h =>
          obtain ⟨hnone, n, hn, hleft⟩ := E.call h
          refine hcalls hleft ?_
          have hcall' : C.call (s.ctl t) = some r := hcall
          simp only [CallsEnd.weight, hnone, hcall', Option.isSome_some, if_true]
          exact Nat.lt_succ_of_le hn
      | @obj t o h =>
          obtain ⟨n, m, hn, hlt, hleft⟩ := E.step (hobj s hs) h
          refine hcalls hleft ?_
          simpa only [CallsEnd.weight, hn] using hlt
      | @ret t a o h =>
          obtain ⟨r, hr⟩ := hret s t a o hs h
          obtain ⟨c, hscript, hresume⟩ := R.call hr
          refine hthread ?_
          have hto : R.script (C.alone.resume t (s.ctl t) a) = c a := hresume t a
          rw [hto, hscript]
          exact .call a
      | @loc t k w' hcall h =>
          refine hthread ?_
          rcases R.step h with ⟨next, c, n, hscript, -, hk⟩ | ⟨job, hscript, -, hk⟩
          · rw [hscript, hk]
            exact .loc n (hworld _ hs₁)
          · rw [hscript, hk]
            exact .again job
      | env h => exact h.elim

end Threads
