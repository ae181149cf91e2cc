import StressAppTest.FineLock.Refinement
import StressAppTest.FineLock.Availability
import StressAppTest.Workers.Pass

/-!
# Passes over the queue

In a pass all workers take pages of one kind and put them back as the other kind, so no page
ever becomes available again (`OneWay.available`). So a search that fails has looked at every
page, and none of them is available now or later.

* `missed_of_reachable`: what the searches of a pass have passed over stays unavailable.
* `Start.sweep_of_reachable`: the invariant of the pass, and that nothing is available any more
  once a worker has finished.
* `Start.terminates`: every run of the pass ends, and only when all workers have ended.
-/

namespace StressAppTest.FineLock

open Threads Contract

section OneWay

variable {τ κ ω : Type} [DecidableEq τ] {C : Program τ κ ω} {Q : FineLockPEQueue}
  {init : Pages → Prop} {D : Discipline C} {kind : PageKind}

/-- All calls take pages of the kind, or put pages of the other kind. -/
def OneWay (kind : PageKind) (s : Sys (Q.obj τ init) κ ω) : Prop :=
  ∀ t r, (s.obj.op t).request = some r →
    r = .get kind kDontCareTag ∨ ∃ pe, r = .put kind.other pe

theorem PageKind.holds_other {pe : PageEntry} (h : kind.other.holds pe = true) :
    ¬ kind.holds pe = true := by
  rw [PageKind.holds_iff] at h ⊢
  rw [h]
  exact kind.other_ne

/-- An entry is not available while its page is locked. -/
theorem not_available_of_mem {s : Sys (Q.obj τ init) κ ω} (h : Owned D s) {t : τ} {i : Nat}
    (hi : i ∈ holding D s t) {p : Pages} (hlocks : p.pagelocks = s.obj.pagelocks) :
    ¬ p.Available kind kDontCareTag i := by
  intro hav
  have hfree := hav.1
  rw [hlocks, h.exclusive.locked_of_mem hi] at hfree
  cases hfree

/-- **Nothing becomes available.** -/
theorem OneWay.available {s s' : Sys (Q.obj τ init) κ ω} (hone : OneWay kind s) (h : Owned D s)
    (hps : 0 < Q.pageSize) (hstep : Step (Q.obj τ init) C s s') {j : Nat}
    (hav : s'.obj.toPages.Available kind kDontCareTag j) :
    s.obj.toPages.Available kind kDontCareTag j := by
  cases hstep with
  | call hcall ho =>
      obtain ⟨-, random64, -, rfl⟩ := ho
      exact hav
  | @obj t _ ho =>
      obtain ⟨p, o, hm, rfl⟩ := ho
      have hm := FineLockPEQueue.microStep_cases hm
      have hsound := h.sound t
      have hreq := hone t
      change p.Available kind kDontCareTag j at hav
      generalize hop : s.obj.op t = op at hm hsound hreq
      -- a store goes to a page in hand
      have hstore {pe : PageEntry} {i : Nat} (hp : p = s.obj.toPages.setEntry i pe)
          (hi : i ∈ holding D s t) : s.obj.toPages.Available kind kDontCareTag j := by
        subst hp
        by_cases hji : j = i
        · subst hji
          exact absurd hav (not_available_of_mem h hi rfl)
        · simpa [Pages.Available, Pages.setEntry, hji] using hav
      -- an unlocked page is of the other kind
      have hunlock {i : Nat} (hp : p = s.obj.toPages.setLock i false)
          (hi : ¬ kind.holds (s.obj.pages i) = true) : s.obj.toPages.Available kind kDontCareTag j := by
        subst hp
        by_cases hji : j = i
        · subst hji
          exact absurd hav.2.1 hi
        · simpa [Pages.Available, Pages.setLock, hji] using hav
      cases hm with
      | @lock c i hl =>
          by_cases hji : j = i
          · subst hji
            have hlocked := hav.1
            simp [Pages.setLock] at hlocked
          · simpa [Pages.Available, Pages.setLock, hji] using hav
      | @giveUp c i =>
          refine hunlock rfl ?_
          rcases hreq _ rfl with hget | ⟨pe, hput⟩
          · obtain ⟨hk, -⟩ := Request.get.inj hget
            rw [← hk, hsound.2]
            decide
          · cases hput
      | @copyInEmpty pe i =>
          refine hstore rfl ?_
          rw [holding, hop]
          exact h.mem_of_put hps (by rw [hop]; rfl) hsound.2.1
      | @copyInValid pe i =>
          refine hstore rfl ?_
          rw [holding, hop]
          exact h.mem_of_put hps (by rw [hop]; rfl) hsound.2.1
      | @clear pe i =>
          refine hstore rfl ?_
          rw [holding, hop]
          exact h.mem_of_put hps (by rw [hop]; rfl) hsound.2
      | @unlock kind' pe i =>
          refine hunlock rfl ?_
          rcases hreq _ rfl with hget | ⟨pe', hput⟩
          · cases hget
          · obtain ⟨rfl, -⟩ := Request.put.inj hput
            exact PageKind.holds_other hsound.2.2
      | _ => exact hav
  | ret ho =>
      obtain ⟨r, -, rfl⟩ := ho
      exact hav
  | loc _ _ => exact hav
  | env _ => exact hav

/-- The searches of a pass leave nothing available behind them. -/
theorem missed_of_reachable (hps : 0 < Q.pageSize) (hC : Q.Covers)
    (hfresh : ∀ p, init p → Fresh Q p)
    (hone : ∀ s : Sys (Q.obj τ init) κ ω, Reachable (Q.obj τ init) C s → OneWay kind s)
    {s : Sys (Q.obj τ init) κ ω} (D : Discipline C) (h : Reachable (Q.obj τ init) C s) {t : τ}
    (hreq : (s.obj.op t).request = some (.get kind kDontCareTag)) :
    Q.Missed s.obj.toPages kind kDontCareTag (s.obj.op t) := by
  obtain ⟨s₀, h0, hrun⟩ := h
  induction hrun with
  | refl =>
      rw [h0.1.2 t] at hreq
      cases hreq
  | @tail s s' hrun hstep ih =>
      have hreach : Reachable (Q.obj τ init) C s := ⟨s₀, h0, hrun⟩
      have howned := owned_of_reachable D hps hfresh hreach
      exact Missed.of_step hC howned (traced_of_reachable hreach) hstep hreq fun hold =>
        ⟨fun j _ hno hav => hno ((hone s hreach).available howned hps hstep hav), ih hold⟩

/-- After a failed search nothing is available. -/
theorem unavailable_of_failed (hps : 0 < Q.pageSize) (hC : Q.Covers)
    (hfresh : ∀ p, init p → Fresh Q p)
    (hone : ∀ s : Sys (Q.obj τ init) κ ω, Reachable (Q.obj τ init) C s → OneWay kind s)
    {s : Sys (Q.obj τ init) κ ω} (D : Discipline C) (h : Reachable (Q.obj τ init) C s) {t : τ}
    (hop : s.obj.op t = .done (.get kind kDontCareTag) (.entry none)) {j : Nat} (hj : j < Q.qSize) :
    ¬ s.obj.toPages.Available kind kDontCareTag j := by
  have hmissed := missed_of_reachable hps hC hfresh hone D h (t := t) (by rw [hop]; rfl)
  rw [hop] at hmissed
  exact hmissed j hj

end OneWay

/-! ## The workers of a pass -/

/-- All workers have ended. -/
def AllEnded {τ : Type} [DecidableEq τ] {O : Obj τ Request Response} (s : Sys O Ctl World) : Prop :=
  ∀ t, ∃ b, (s.ctl t).Ended b

/-- Every run from `s` on ends, and only when all workers have ended. -/
def Terminates {τ : Type} [DecidableEq τ] {O : Obj τ Request Response} (C : Program τ Ctl World)
    (s : Sys O Ctl World) : Prop :=
  Acc (fun s' s => Step O C s s') s ∧ ∀ s', Relation.ReflTransGen (Step O C) s s' →
    (∀ s'', ¬ Step O C s' s'') → AllEnded s'

theorem FineLockPEQueue.poolOp_request (Q : FineLockPEQueue) (p : Pages) (o : Op) :
    (Q.poolOp p o).request = o.request := by
  cases o <;> rfl

/-- Everything a pass starts from: the arrays, what each worker is to do, and where it stands. -/
structure Start (Q : FineLockPEQueue) {sat : Sat} {P : Pass} (B : PassLoop sat P) (τ : Type)
    [Fintype τ] where
  pages : Pages
  jobs : τ → Job
  W : World → Prop
  lap : τ → Lap
  pageSize_pos : 0 < Q.pageSize
  fresh : Fresh Q pages
  loop : ∀ t, B.L (jobs t) (lap t)
  page : ∀ t, (lap t).page = none
  finished : ∀ t, (lap t).finished = false
  halted : ∀ t, (lap t).halted = false
  quota : P.shared = true → stock Q.qSize (initSlots Q pages) P.kind = ∑ t, (lap t).left
  world : ∀ w, W w → (P.shared = true → P.running w) ∧ P.log w = []

section Sweep

variable {τ : Type} [DecidableEq τ] [Fintype τ] {Q : FineLockPEQueue} {sat : Sat} {P : Pass}
  {B : PassLoop sat P} (S : Start Q B τ)

namespace Start

/-- The pages the pass is about. -/
def start (i : Nat) : Prop := (S.pages.pages i).kind = P.kind

/-- The queue in the state the pass finds it in. -/
@[reducible] def obj : Obj τ Request Response := Q.obj τ (· = S.pages)

/-- The workers of the pass. -/
@[reducible] def program : Program τ Ctl World := workers sat S.jobs S.W (fun _ _ => False)

/-- The pool of the pass. -/
@[reducible] def pool : Obj τ Request Response :=
  poolObj Q.qSize Q.pageSize τ fun slot => ∃ p, p = S.pages ∧ slot = initSlots Q p

def package : Package S.pool S.program sat.body Lap :=
  B.package S.pageSize_pos S.start S.jobs S.W

omit [DecidableEq τ] in
theorem fresh_of_eq : ∀ p, p = S.pages → Fresh Q p := fun _ h => h ▸ S.fresh

/-- The pool a state stands for. -/
noncomputable def toPool (s : Sys S.obj Ctl World) : Sys S.pool Ctl World :=
  ⟨Q.toPool s.obj, s.ctl, s.world⟩

theorem owned {s : Sys S.obj Ctl World} (h : Reachable S.obj S.program s) :
    Owned (workersDiscipline : Discipline S.program) s :=
  owned_of_reachable _ S.pageSize_pos S.fresh_of_eq h

/-- A step is one of the pool, or one that the pool does not see. -/
theorem toPool_step {s s' : Sys S.obj Ctl World} (h : Reachable S.obj S.program s)
    (hstep : Step S.obj S.program s s') :
    Step S.pool S.program (S.toPool s) (S.toPool s') ∨
      (S.toPool s' = S.toPool s ∧
        ∑ t, Q.stepsLeft (s'.obj.op t) < ∑ t, Q.stepsLeft (s.obj.op t)) := by
  have hI := And.intro (S.owned h)
    (stored_of_reachable (workersDiscipline : Discipline S.program) S.pageSize_pos S.fresh_of_eq h)
  let sim := simulation (workersDiscipline : Discipline S.program) S.pageSize_pos S.fresh_of_eq
  cases hstep with
  | call hcall ho => exact .inl (.call hcall (sim.call hI hcall ho))
  | @obj t o ho =>
      rcases sim.step hI ho with heq | hs
      · right
        refine ⟨?_, ?_⟩
        · change (⟨Q.toPool o, s.ctl, s.world⟩ : Sys S.pool Ctl World) = ⟨Q.toPool s.obj, s.ctl, s.world⟩
          rw [show Q.toPool o = Q.toPool s.obj from heq]
        · obtain ⟨p, o', hm, rfl⟩ := ho
          have hlt := FineLockPEQueue.stepsLeft_lt (traced_of_reachable h t)
            (FineLockPEQueue.microStep_cases hm)
          have hsum := sum_update_add Finset.univ (fun t => Q.stepsLeft (s.obj.op t))
            (Finset.mem_univ t) (Q.stepsLeft o')
          have hcongr : ∀ t', Q.stepsLeft (Function.update s.obj.op t o' t') =
              Function.update (fun t => Q.stepsLeft (s.obj.op t)) t (Q.stepsLeft o') t' :=
            fun t' => Function.apply_update (fun _ => Q.stepsLeft) s.obj.op t o' t'
          simp only [hcongr]
          omega
      · exact .inl (.obj hs)
  | ret ho => exact .inl (.ret (sim.ret hI ho))
  | loc hcall hs => exact .inl (.loc hcall hs)
  | env hw => exact hw.elim

theorem describes_of_initial {s : Sys S.obj Ctl World} (h : Initial S.obj S.program s) :
    S.package.Describes (S.toPool s) ⟨Q.toPool s.obj, S.lap, s.world⟩ := by
  obtain ⟨⟨hpages, hidle⟩, hctl, hw⟩ := h
  obtain ⟨hrun, hlog⟩ := S.world _ hw
  have hslot : (Q.toPool s.obj).slot = initSlots Q S.pages := by
    funext i
    simp only [FineLockPEQueue.toPool, initSlots]
    by_cases hi : i < Q.qSize
    · rw [if_pos ⟨hi, .inl (hpages ▸ (S.fresh i hi).1)⟩, if_pos hi, ← hpages]
    · rw [if_neg fun hc => hi hc.1, if_neg hi]
  have hop : ∀ t, (Q.toPool s.obj).op t = .idle := by
    intro t
    simp [FineLockPEQueue.toPool, hidle t, FineLockPEQueue.poolOp]
  have hsettled : ∀ t, (S.lap t).settled P ((Q.toPool s.obj).op t) = S.lap t := by
    intro t
    rw [hop t]
    rfl
  refine ⟨rfl, rfl, fun t => ?_, fun t r hreq => ?_, ⟨?_, hrun, ?_, ?_, ?_, ?_, ?_, ?_, ?_, ?_, ?_⟩⟩
  · change (passContract P).Follows _ (s.ctl t).script _
    rw [hctl t]
    exact S.loop t
  · refine absurd hreq ?_
    change ¬ ((Q.toPool s.obj).op t).request = some r
    rw [hop t]
    simp [PoolOp.request]
  · apply poolHeld_of_initial
    · intro i
      rw [hslot]
      by_cases hi : i < Q.qSize <;> simp [initSlots, hi]
    · exact hop
    · intro t
      simp [passHandling, Lap.hand, S.page t]
  · intro t ht
    have hlap : (S.lap t).halted = true := ht
    rw [S.halted t] at hlap
    cases hlap
  · intro t r a hdone
    rw [hop t] at hdone
    cases hdone
  · intro i p hp
    rw [hslot] at hp
    unfold initSlots at hp
    split at hp
    · obtain ⟨hk, rfl⟩ := Prod.mk.inj (Option.some.inj hp)
      exact PageKind.holds_iff.mpr hk
    · cases hp
  · dsimp only
    rw [hlog]
    exact List.nodup_nil
  · intro o ho
    dsimp only at ho
    rw [hlog] at ho
    cases ho
  · intro i p hp
    dsimp only at hp ⊢
    rw [hslot] at hp
    rw [hlog]
    unfold initSlots at hp
    split at hp
    · exact ⟨(Prod.mk.inj (Option.some.inj hp)).1, List.not_mem_nil⟩
    · cases hp
  · intro i p hp hstart
    dsimp only at hp
    rw [hslot] at hp
    unfold initSlots at hp
    split at hp
    · have hk := (Prod.mk.inj (Option.some.inj hp)).1
      have hs : (S.pages.pages i).kind = P.kind := hstart
      exact absurd (hk.symm.trans hs) P.kind.other_ne
    · cases hp
  · intro t o b hpage
    rw [hsettled t, S.page t] at hpage
    cases hpage
  · intro hshared
    simp only [hslot, hsettled]
    exact S.quota hshared

theorem exists_describes {s : Sys S.obj Ctl World} (h : Reachable S.obj S.program s) :
    ∃ a, S.package.Describes (S.toPool s) a := by
  obtain ⟨s₀, h0, hrun⟩ := h
  induction hrun with
  | refl => exact ⟨_, S.describes_of_initial h0⟩
  | @tail s s' hrun hstep ih =>
      obtain ⟨a, ha⟩ := ih
      rcases S.toPool_step ⟨s₀, h0, hrun⟩ hstep with hs | ⟨heq, -⟩
      · obtain ⟨a', -, ha'⟩ := Package.step ha hs
        exact ⟨a', ha'⟩
      · exact ⟨a, heq ▸ ha⟩

/-- The calls of a pass go one way. -/
theorem oneWay {s : Sys S.obj Ctl World} (h : Reachable S.obj S.program s) : OneWay P.kind s := by
  obtain ⟨a, ha⟩ := S.exists_describes h
  intro t r hreq
  have hswept : Swept P S.start a := ha.inv
  have hop : (a.obj.op t).request = some r := by
    rw [ha.obj]
    change (Q.poolOp _ (s.obj.op t)).request = some r
    rw [Q.poolOp_request, hreq]
  have hpre := hswept.held.asked t r hop
  cases r with
  | get kind tag =>
      obtain ⟨rfl, rfl, -⟩ := hpre
      exact .inl rfl
  | put kind pe =>
      obtain ⟨rfl, -⟩ := hpre
      exact .inr ⟨pe, rfl⟩

/-! ## What a pass has done -/

theorem poolOp_eq_failed {p : Pages} {o : Op} {kind : PageKind} {tag : Word32}
    (h : Q.poolOp p o = .done (.get kind tag) (.entry none)) :
    o = .done (.get kind tag) (.entry none) := by
  cases o with
  | done r a =>
      obtain ⟨rfl, rfl⟩ := PoolOp.done.inj h
      rfl
  | copyOut c i =>
      obtain ⟨-, hentry⟩ := PoolOp.done.inj h
      cases Response.entry.inj hentry
  | _ => cases h

theorem acc_of_describes {n m : Nat} {s : Sys S.obj Ctl World} {a : Sys S.pool Lap World}
    (h : Reachable S.obj S.program s) (ha : S.package.Describes (S.toPool s) a)
    (hn : effort P a = n) (hm : ∑ t, Q.stepsLeft (s.obj.op t) = m) :
    Acc (fun s' s => Step S.obj S.program s s') s := by
  -- lexicographic: a step the pool sees uses up effort, any other one steps of its call
  induction n using Nat.strong_induction_on generalizing m s a with
  | h n ihn =>
      induction m using Nat.strong_induction_on generalizing s with
      | h m ihm =>
          refine ⟨_, fun s' hstep => ?_⟩
          rcases S.toPool_step h hstep with hs | ⟨heq, hlt⟩
          · obtain ⟨a', hstep', ha'⟩ := Package.step ha hs
            have hswept : Swept P S.start a := ha.inv
            exact ihn _ (hn ▸ hswept.effort_lt hstep') (h.step hstep) ha' rfl rfl
          · exact ihm _ (hm ▸ hlt) (h.step hstep) (heq ▸ ha) rfl

/-- **Every run of a pass ends.** -/
theorem acc_of_reachable {s : Sys S.obj Ctl World} (h : Reachable S.obj S.program s) :
    Acc (fun s' s => Step S.obj S.program s s') s := by
  obtain ⟨a, ha⟩ := S.exists_describes h
  exact S.acc_of_describes h ha rfl rfl

/-- A worker that has not ended can go on. -/
theorem exists_step (hC : Q.Covers) {s : Sys S.obj Ctl World} (h : Reachable S.obj S.program s) {t : τ}
    (ht : ∀ b, ¬ (s.ctl t).Ended b) : ∃ s', Step S.obj S.program s s' := by
  by_cases hidle : s.obj.op t = .idle
  · cases hscript : (s.ctl t).script with
    | ret o =>
        cases o with
        | exit b => exact absurd hscript (ht b)
        | again job =>
            have hnext : ((s.ctl t).next sat 0 s.world).isSome := by
              rw [Ctl.isSome_next]
              exact .inr ⟨job, hscript⟩
            obtain ⟨⟨k, w⟩, hk⟩ := Option.isSome_iff_exists.mp hnext
            exact ⟨_, .loc (by simp [workers, Ctl.call, hscript]) ⟨0, hk⟩⟩
    | call r c =>
        exact ⟨_, .call (r := r) (by simp [workers, Ctl.call, hscript])
          ⟨hidle, 0, by norm_num, rfl⟩⟩
    | loc f c =>
        have hnext : ((s.ctl t).next sat 0 s.world).isSome := by
          rw [Ctl.isSome_next]
          exact .inl ⟨f, c, hscript⟩
        obtain ⟨⟨k, w⟩, hk⟩ := Option.isSome_iff_exists.mp hnext
        exact ⟨_, .loc (by simp [workers, Ctl.call, hscript]) ⟨0, hk⟩⟩
  · by_cases hdone : ∃ r a, s.obj.op t = .done r a
    · obtain ⟨r, a, hop⟩ := hdone
      exact ⟨_, .ret ⟨r, hop, rfl⟩⟩
    · obtain ⟨p, o, hm⟩ := FineLockPEQueue.exists_microStep hC (traced_of_reachable h t) hidle
        (fun r a ho => hdone ⟨r, a, ho⟩) s.obj.toPages
      exact ⟨_, .obj ⟨p, o, hm, rfl⟩⟩

/-- **A pass ends,** and only when all its workers have. -/
theorem terminates (hC : Q.Covers) {s : Sys S.obj Ctl World} (h : Reachable S.obj S.program s) :
    Terminates S.program s := by
  refine ⟨S.acc_of_reachable h, fun s' hrun hstuck t => ?_⟩
  have hreach : Reachable S.obj S.program s' := by
    obtain ⟨s₀, h0, hbefore⟩ := h
    exact ⟨s₀, h0, hbefore.trans hrun⟩
  by_contra hno
  obtain ⟨s'', hstep⟩ := S.exists_step hC hreach (t := t) fun b hb => hno ⟨b, hb⟩
  exact hstuck s'' hstep

/-- A worker that has ended is outside the queue. -/
theorem op_of_ended {s : Sys S.obj Ctl World} (h : Reachable S.obj S.program s) {t : τ} {b : Bool}
    (ht : (s.ctl t).Ended b) : s.obj.op t = .idle := by
  rcases (S.owned h).request t with hidle | hcall
  · exact hidle
  · have hnone : S.program.call (s.ctl t) = none := by
      have hscript : (s.ctl t).script = .ret (.exit b) := ht
      simp [workers, Ctl.call, hscript]
    rw [hnone] at hcall
    cases hop : s.obj.op t with
    | idle => rfl
    | _ => simp [hop, Op.request] at hcall

/-- When all workers have ended with no page in hand, every page is unlocked, and in the pool. -/
theorem unlocked_of_ended {s : Sys S.obj Ctl World} {a : Sys S.pool Lap World}
    (h : Reachable S.obj S.program s) (ha : S.package.Describes (S.toPool s) a) (hended : AllEnded s)
    (hpage : ∀ t, (a.ctl t).page = none) {i : Nat} (hi : i < Q.qSize) :
    s.obj.pagelocks i = false ∧
      a.obj.slot i = some ((s.obj.pages i).kind, (s.obj.pages i).pattern) := by
  have hidle : ∀ t, s.obj.op t = .idle := by
    intro t
    obtain ⟨b, hb⟩ := hended t
    exact S.op_of_ended h hb
  have hswept : Swept P S.start a := ha.inv
  have hhand : ∀ t, poolHand (passHandling Q.pageSize P) a t = 0 := by
    intro t
    have hop : a.obj.op t = .idle := by
      rw [ha.obj]
      change Q.poolOp _ (s.obj.op t) = .idle
      rw [hidle t]
      rfl
    simp [poolHand, hop, PoolOp.inHand, passHandling, Lap.hand, hpage t]
  have hin : ¬ (a.obj.slot i).isNone = true := by
    intro hnone
    obtain ⟨t, ht⟩ := (hswept.held.exclusive.locked_iff hi).mp hnone
    rw [hhand t] at ht
    exact Multiset.notMem_zero i ht
  have hslot : a.obj.slot i = (Q.toPool s.obj).slot i := by
    rw [ha.obj]
    rfl
  rw [hslot] at hin ⊢
  simp only [FineLockPEQueue.toPool] at hin ⊢
  split at hin
  · next hfree =>
    refine ⟨?_, if_pos hfree⟩
    cases hfree.2 with
    | inl hlock => exact hlock
    | inr htransient =>
        obtain ⟨t, ht⟩ := htransient
        rw [hidle t] at ht
        exact ht.elim
  · exact absurd rfl hin

end Start

end Sweep

end StressAppTest.FineLock
