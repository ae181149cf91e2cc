import StressAppTest.FineLock.Availability
import StressAppTest.Workers.Program

/-!
# Searches while pages move

A search is meant to find a page as long as one is available at every moment. It does not: the
scan passes each page once, and the copies of another worker can carry the valid pages from
places in front of the scan to places behind it (`search_overtaken`). This is the only way to
fail: if nothing becomes available behind the scan, the search returns an entry, and a copy
worker whose searches all run so never fails (`search_finds`).
-/

namespace StressAppTest.FineLock

open Threads Work Contract

/-! ## A copy worker whose calls all succeed -/

/-- Every search finds a page and every put is accepted. -/
def servedContract : Contract Request Response World Unit where
  pre _
    | .get _ tag => tag = kDontCareTag
    | .put kind pe => kind = .valid → pe.pattern.isSome
  post _ r a _ :=
    match r, a with
    | .get kind _, .entry (some pe) => kind = .valid → pe.pattern.isSome
    | .put _ _, .status true => True
    | _, _ => False
  view _ _ := True
  move _ _ _ _ := True

/-- The worker goes on as a copy worker, or ends well. -/
def ServedEnds : Turn Job → Unit → Prop :=
  Turn.Ends (fun job _ => job = .copy kDontCareTag) (fun status _ => status = true)

theorem served_act {β : Type} {Q : β → Unit → Prop} {f : Nat → World → World × β}
    (h : ∀ n w, Q (f n w).2 ()) : servedContract.Follows Q (act f) () :=
  follows_act fun n w _ => ⟨(), trivial, h n w⟩

theorem served_put {Q : Bool → Unit → Prop} {kind : PageKind} {pe : PageEntry}
    (hpe : kind = .valid → pe.pattern.isSome) (h : Q true ()) :
    servedContract.Follows Q (put kind pe) () := by
  refine ⟨hpe, fun a _ hpost => ?_⟩
  cases a with
  | entry pe' => exact hpost.elim
  | status ok =>
      cases ok with
      | true => exact h
      | false => exact hpost.elim

theorem served_getValid (sat : Sat) :
    servedContract.Follows (fun r _ => ∃ pe : PageEntry, r = some pe ∧ pe.pattern.isSome)
      (sat.getValid kDontCareTag) () := by
  refine ⟨rfl, fun a _ hpost => ?_⟩
  cases a with
  | entry pe =>
      cases pe with
      | none => exact hpost.elim
      | some pe => exact served_act fun _ _ => ⟨_, rfl, hpost rfl⟩
  | status ok => exact hpost.elim

theorem served_getEmpty (sat : Sat) :
    servedContract.Follows (fun r _ => ∃ pe : PageEntry, r = some pe)
      (sat.getEmpty kDontCareTag) () := by
  refine ⟨rfl, fun a _ hpost => ?_⟩
  cases a with
  | entry pe =>
      cases pe with
      | none => exact hpost.elim
      | some pe => exact ⟨_, rfl⟩
  | status ok => exact hpost.elim

theorem served_copyPage (sat : Sat) (src dst : PageEntry) :
    servedContract.Follows (fun (dst' : PageEntry) _ => dst'.pattern = src.pattern)
      (sat.copyPage src dst) () := by
  apply served_act
  intro n w
  dsimp only
  split
  · split <;> rfl
  · split
    · split <;> rfl
    · rfl

theorem served_copyThreadWork (sat : Sat) :
    servedContract.Follows ServedEnds (sat.copyThreadWork kDontCareTag) () := by
  have hrun : servedContract.Follows (fun _ _ => True) (keepRunning .powerSpike) () := by
    apply follows_bind (Q := fun _ _ => True) (served_act fun _ _ => trivial)
    intro ready _ _
    cases ready with
    | true => exact follows_bind (Q := fun _ _ => True) (served_act fun _ _ => trivial) fun _ _ _ => trivial
    | false => exact trivial
  apply follows_bind hrun
  intro run _ _
  apply follows_ite
  · exact fun _ => rfl
  · intro _
    apply follows_bind (served_getValid sat)
    rintro _ _ ⟨src, rfl, hpattern⟩
    apply follows_bind (served_getEmpty sat)
    rintro _ _ ⟨dst, rfl⟩
    apply follows_bind (served_copyPage sat src dst)
    intro dst' _ hdst
    have hcheck : servedContract.Follows (fun _ _ => True)
        (sat.checkPageIf sat.copyVerifyDestination dst') () := by
      cases sat.copyVerifyDestination with
      | true => exact served_act fun _ _ => trivial
      | false => exact trivial
    apply follows_bind hcheck
    intro _ _ _
    apply follows_bind (Q := fun ok _ => ok = true)
    · exact served_put (fun _ => by rw [← hpattern]; exact congrArg Option.isSome hdst) rfl
    · intro ok _ hok
      subst hok
      apply follows_bind (Q := fun ok _ => ok = true)
      · exact served_put (fun hkind => by cases hkind) rfl
      · intro ok _ hok
        subst hok
        exact rfl

/-! ## Runs in which the searches of one thread have a page at every moment -/

section Provided

variable {τ κ ω : Type} [DecidableEq τ] {C : Program τ κ ω} {Q : FineLockPEQueue}
  {init : Pages → Prop}

/-- The states of the runs in which, at every moment of a call of `t` for a page, some such page
is unlocked, and no step makes an entry available that the call has passed over. -/
inductive Provided (C : Program τ κ ω) (t : τ) : Sys (Q.obj τ init) κ ω → Prop
  | init {s : Sys (Q.obj τ init) κ ω} (h : Initial (Q.obj τ init) C s) : Provided C t s
  | step {s s' : Sys (Q.obj τ init) κ ω} (h : Provided C t s) (hstep : Step (Q.obj τ init) C s s')
      (hbehind : ∀ kind, (s.obj.op t).request = some (.get kind kDontCareTag) →
        NothingBehind t kind kDontCareTag s s')
      (hav : ∀ kind, (s'.obj.op t).request = some (.get kind kDontCareTag) →
        ∃ j < Q.qSize, s'.obj.toPages.Unlocked kind j) : Provided C t s'

theorem Provided.reachable {t : τ} {s : Sys (Q.obj τ init) κ ω} (h : Provided C t s) :
    Reachable (Q.obj τ init) C s := by
  induction h with
  | init h => exact .init h
  | step _ hstep _ _ ih => exact ih.step hstep

theorem Provided.exists_unlocked {t : τ} {s : Sys (Q.obj τ init) κ ω} (h : Provided C t s)
    {kind : PageKind} (hreq : (s.obj.op t).request = some (.get kind kDontCareTag)) :
    ∃ j < Q.qSize, s.obj.toPages.Unlocked kind j := by
  cases h with
  | init h =>
      rw [h.1.2 t] at hreq
      cases hreq
  | step _ _ _ hav => exact hav kind hreq

theorem Provided.missed {D : Discipline C} (hps : 0 < Q.pageSize) (hC : Q.Covers)
    (hfresh : ∀ p, init p → Fresh Q p) {t : τ} {s : Sys (Q.obj τ init) κ ω} (h : Provided C t s)
    {kind : PageKind} (hreq : (s.obj.op t).request = some (.get kind kDontCareTag)) :
    Q.Missed s.obj.toPages kind kDontCareTag (s.obj.op t) := by
  induction h with
  | init h =>
      rw [h.1.2 t] at hreq
      cases hreq
  | @step s s' hp hstep hbehind hav ih =>
      exact Missed.of_step hC (owned_of_reachable D hps hfresh hp.reachable)
        (traced_of_reachable hp.reachable) hstep hreq fun hold => ⟨hbehind kind hold, ih hold⟩

/-- A put is refused only for a page without a pattern. -/
theorem put_refused {D : Discipline C} (hps : 0 < Q.pageSize) (hfresh : ∀ p, init p → Fresh Q p)
    {s : Sys (Q.obj τ init) κ ω} (h : Reachable (Q.obj τ init) C s) :
    ∀ t kind pe, s.obj.op t = .done (.put kind pe) (.status false) →
      kind = .valid ∧ pe.pattern = none := by
  have hinv : Owned D s ∧ ∀ t kind pe, s.obj.op t = .done (.put kind pe) (.status false) →
      kind = .valid ∧ pe.pattern = none := by
    refine h.inv (I := fun (s : Sys (Q.obj τ init) κ ω) => Owned D s ∧ ∀ t kind pe,
      s.obj.op t = .done (.put kind pe) (.status false) → kind = .valid ∧ pe.pattern = none) ?_ ?_
    · intro s hs
      refine ⟨owned_of_initial D hfresh hs, fun t kind pe ho => ?_⟩
      rw [hs.1.2 t] at ho
      cases ho
    · intro s s' hs hstep
      obtain ⟨howned, hs⟩ := hs
      refine ⟨howned.step hps hstep, ?_⟩
      have hone {t : τ} {o : Op} (ho : ∀ kind pe, o = .done (.put kind pe) (.status false) →
          kind = .valid ∧ pe.pattern = none) (t' : τ) (kind : PageKind) (pe : PageEntry)
          (hop : Function.update s.obj.op t o t' = .done (.put kind pe) (.status false)) :
          kind = .valid ∧ pe.pattern = none := by
        by_cases ht : t' = t
        · subst ht
          rw [Function.update_self] at hop
          exact ho kind pe hop
        · rw [Function.update_of_ne ht] at hop
          exact hs t' kind pe hop
      cases hstep with
      | @call t r _ hcall ho =>
          obtain ⟨hidle, random64, -, rfl⟩ := ho
          apply hone
          intro kind pe hop
          obtain rfl : r = .put kind pe := by
            have hreq := Q.request_enter random64 r
            rw [hop] at hreq
            exact (Option.some.inj hreq).symm
          obtain ⟨i, hi, hoff⟩ := howned.aligned t _ (D.owns hcall)
          have hidx : pe.offset / Q.pageSize = i := by
            rw [hoff]
            exact Nat.mul_div_cancel _ hps
          simp only [FineLockPEQueue.enter, hidx, if_pos hi] at hop
          split at hop
          · next hcheck =>
            have hzero : ¬ Q.qSize = 0 := by omega
            simpa [hzero, PageKind.holds] using hcheck
          · cases hop
      | @obj t _ ho =>
          obtain ⟨p, o, hm, rfl⟩ := ho
          apply hone
          intro kind pe hop
          subst hop
          generalize s.obj.op t = o at hm
          cases FineLockPEQueue.microStep_cases hm
      | @ret t _ _ ho =>
          obtain ⟨r, -, rfl⟩ := ho
          apply hone
          intro kind pe hop
          cases hop
      | loc _ _ => exact hs
      | env _ => exact hs
  exact hinv.2

end Provided

/-- A copy worker whose searches always have a page in front of them goes on. -/
theorem copy_served {τ : Type} [DecidableEq τ] {Q : FineLockPEQueue} {init : Pages → Prop} {sat : Sat}
    {jobs : τ → Job} {W : World → Prop} {env : World → World → Prop} (hps : 0 < Q.pageSize)
    (hC : Q.Covers) (hfresh : ∀ p, init p → Fresh Q p) {t : τ} (ht : jobs t = .copy kDontCareTag)
    {s : Sys (Q.obj τ init) Ctl World} (h : Provided (workers sat jobs W env) t s) :
    servedContract.Follows ServedEnds (s.ctl t).script () := by
  induction h with
  | init h =>
      rw [h.2.1 t, ht]
      exact rfl
  | @step s s' hp hstep _ _ ih =>
      have howned := owned_of_reachable workersDiscipline hps hfresh hp.reachable
      cases hstep with
      | call _ _ => exact ih
      | obj _ => exact ih
      | env _ => exact ih
      | @ret t' a _ ho =>
          obtain ⟨r, hdone, rfl⟩ := ho
          by_cases heq : t = t'
          · subst heq
            have hcall : (s.ctl t).call = some r := by
              cases howned.request t with
              | inl hidle => exact absurd hidle (by simp [hdone])
              | inr hcall =>
                  rw [hdone] at hcall
                  exact hcall
            obtain ⟨c, hscript⟩ := Ctl.call_eq_some hcall
            rw [hscript] at ih
            dsimp only
            rw [Function.update_self]
            change servedContract.Follows ServedEnds ((s.ctl t).resume a).script ()
            rw [(Ctl.resume_of_call a hscript).1]
            apply ih.2
            have hsound := howned.sound t
            rw [hdone] at hsound
            cases r with
            | get kind tag =>
                obtain rfl : tag = kDontCareTag := ih.1
                cases a with
                | status ok => exact hsound.elim
                | entry pe =>
                    cases pe with
                    | none =>
                        -- a failed search has passed over every page
                        have hreq : (s.obj.op t).request = some (.get kind kDontCareTag) := by
                          rw [hdone]
                          rfl
                        obtain ⟨j, hj, hun⟩ := hp.exists_unlocked hreq
                        have hmissed := hp.missed (D := workersDiscipline) hps hC hfresh hreq
                        rw [hdone] at hmissed
                        exact absurd (Pages.available_iff_unlocked.mpr hun) (hmissed j hj)
                    | some pe =>
                        obtain ⟨i, -, -, hk⟩ := hsound
                        intro hkind
                        subst hkind
                        exact hk
            | put kind pe =>
                cases a with
                | entry pe' => exact hsound.elim
                | status ok =>
                    cases ok with
                    | true => exact trivial
                    | false =>
                        obtain ⟨hkind, hnone⟩ :=
                          put_refused (D := workersDiscipline) hps hfresh hp.reachable t kind pe hdone
                        have hsome : pe.pattern.isSome := ih.1 hkind
                        rw [hnone] at hsome
                        cases hsome
          · simpa [heq] using ih
      | @loc t' k w hcall hs =>
          by_cases heq : t = t'
          · subst heq
            dsimp only
            rw [Function.update_self]
            obtain ⟨n, hn⟩ := hs
            rcases Ctl.next_cases hn with ⟨f, c, hscript, -, hk, -⟩ | ⟨job, hscript, -, hk, -⟩
            · rw [hscript] at ih
              obtain ⟨_, -, hc⟩ := ih n s.world trivial
              rw [hk]
              exact hc
            · rw [hscript] at ih
              obtain rfl : job = .copy kDontCareTag := ih
              rw [hk]
              exact served_copyThreadWork sat
          · simpa [heq] using ih

/-- **A search finds a page.** In a run in which some page of the kind is unlocked at every
moment of the call, and nothing becomes available behind the scan, the call has its entry or
can take its next step, which brings it closer to its end. A copy worker all of whose searches
run so never ends with a failure. -/
theorem search_finds {q pagesize : Nat} (hq : 1 ≤ q) (hps : 0 < pagesize) {Q : FineLockPEQueue}
    (hQ : FineLockPEQueue.construct q pagesize = some Q)
    (hno : Q.a * (Q.modlength - 1) + Q.c < 2 ^ 64) {τ : Type} [DecidableEq τ] :
    (∀ {κ ω : Type} {C : Program τ κ ω} (_ : Discipline C) (t : τ) (kind : PageKind)
      (s : Sys (Q.obj τ (Fresh Q)) κ ω),
      Watched C t kind (NothingBehind t kind kDontCareTag) s →
        (∃ pe, s.obj.op t = .done (.get kind kDontCareTag) (.entry (some pe))) ∨
        ∃ p o, Q.microStep s.obj.toPages (s.obj.op t) = some (p, o) ∧
          Q.stepsLeft o < Q.stepsLeft (s.obj.op t)) ∧
    ∀ (sat : Sat) (jobs : τ → Job) (W : World → Prop) (env : World → World → Prop) (t : τ),
      jobs t = .copy kDontCareTag → ∀ s : Sys (Q.obj τ (Fresh Q)) Ctl World,
      Provided (workers sat jobs W env) t s → ¬ (s.ctl t).Ended false := by
  obtain ⟨Q', hQ', hP, -, hpsize⟩ := FineLockPEQueue.construct_spec pagesize hq
  obtain rfl : Q' = Q := Option.some.inj (hQ'.symm.trans hQ)
  subst hpsize
  have hC : Q'.Covers := Path.covers hq hP hno
  constructor
  · intro κ ω C D t kind s hs
    exact search_returns (D := D) hps hC (fun _ h => h) hs
  · intro sat jobs W env t ht s hs hended
    have hserved := copy_served hps hC (fun _ h => h) ht hs
    rw [hended] at hserved
    cases hserved

/-! ## A search that is overtaken -/

section Overtaken

variable {τ χ κ ω : Type} [DecidableEq τ] (Q : FineLockPEQueue) (init : Pages → Prop)
  (C : Program τ κ ω) (locStep : τ → χ → κ → ω → Option (κ × ω))

/-- Some page of the kind is unlocked, and thread `t` is in a call. -/
def watching (t : τ) (kind : PageKind) (s : Sys (Q.obj τ init) κ ω) : Bool :=
  (List.range Q.qSize).any (fun j => !s.obj.pagelocks j && kind.holds (s.obj.pages j)) &&
    (s.obj.op t).request.isSome

/-- A schedule, as long as each of its states satisfies `watching`. -/
def watchedRun (t : τ) (kind : PageKind) (s : Sys (Q.obj τ init) κ ω)
    (acts : List (FineLockPEQueue.Act τ χ)) : Option (Sys (Q.obj τ init) κ ω) :=
  acts.foldlM (fun s x => (Q.act init C locStep s x).filter (watching Q init t kind)) s

variable {Q init C locStep}

theorem watching_iff {t : τ} {kind : PageKind} {s : Sys (Q.obj τ init) κ ω} :
    watching Q init t kind s = true ↔
      (∃ j < Q.qSize, s.obj.toPages.Unlocked kind j) ∧ (s.obj.op t).request.isSome := by
  simp [watching, Pages.Unlocked]

theorem watched_of_run
    (hlocal : ∀ t x k w k' w', locStep t x k w = some (k', w') → C.step t k w k' w') {t : τ}
    {kind : PageKind} {s s' : Sys (Q.obj τ init) κ ω} {acts : List (FineLockPEQueue.Act τ χ)}
    (hs : Watched C t kind (fun _ _ => True) s)
    (h : watchedRun Q init C locStep t kind s acts = some s') :
    Watched C t kind (fun _ _ => True) s' := by
  induction acts generalizing s with
  | nil =>
      obtain rfl : s = s' := Option.some.inj h
      exact hs
  | cons x acts ih =>
      simp only [watchedRun, List.foldlM_cons, Option.bind_eq_bind] at h
      obtain ⟨s₁, hx, hrest⟩ := Option.bind_eq_some_iff.mp h
      obtain ⟨hx, hwatch⟩ := Option.filter_eq_some_iff.mp hx
      obtain ⟨hav, hin⟩ := watching_iff.mp hwatch
      refine ih (.next hs (FineLockPEQueue.step_of_act hlocal hx) ?_ trivial hav) hrest
      intro hidle
      rw [hidle] at hin
      cases hin

end Overtaken

/-- A search for any valid page is about to look at the first entry, from a start and an offset of
0. -/
def Op.entersAtZero : Op → Bool
  | .scan ⟨.valid, tag, 0, 0, 1⟩ => tag == kDontCareTag
  | _ => false

theorem Op.eq_of_entersAtZero {o : Op} (h : o.entersAtZero = true) :
    o = .scan ⟨.valid, kDontCareTag, 0, 0, 1⟩ := by
  unfold Op.entersAtZero at h
  split at h
  · next tag =>
    obtain rfl : tag = kDontCareTag := by simpa using h
    rfl
  · cases h

/-- A search for any valid page has found none. -/
def Op.failsValid : Op → Bool
  | .done (.get .valid tag) (.entry none) => tag == kDontCareTag
  | _ => false

theorem Op.eq_of_failsValid {o : Op} (h : o.failsValid = true) :
    o = .done (.get .valid kDontCareTag) (.entry none) := by
  unfold Op.failsValid at h
  split at h
  · next tag =>
    obtain rfl : tag = kDontCareTag := by simpa using h
    rfl
  · cases h

/-- The scan of the first of two copy workers meets the pages in the order 1, 4, 3, 0, 2, of
which 4, 3 and 0 are valid. The second worker copies 4 to 1, 3 to 4 and 0 to 3, each time just
before the scan gets to the source. At every moment a valid page is unlocked, yet the search
fails, and the worker ends with a failure. -/
theorem search_overtaken :
    let Q : FineLockPEQueue := ⟨⟨5, 5, 7, 8⟩, 1024, .kTouch⟩
    let C := workers (Sat.small 5 2) (fun _ : Bool => .copy kDontCareTag) (· = World.blank)
      (fun _ _ => False)
    FineLockPEQueue.construct 5 1024 = some Q ∧ Q.a * (Q.modlength - 1) + Q.c < 2 ^ 64 ∧
    ∃ s : Sys (Q.obj Bool (Fresh Q)) Ctl World,
      Watched C true .valid (fun _ _ => True) s ∧
      s.obj.op true = .done (.get .valid kDontCareTag) (.entry none) ∧
      ∃ s', Step _ C s s' ∧ (s'.ctl true).Ended false := by
  intro Q C
  refine ⟨by decide +kernel, by decide, ?_⟩
  let choose (_ : Bool) (n : Nat) (k : Ctl) (w : World) := k.next (Sat.small 5 2) n w
  have hchoose : ∀ t x k w k' w', choose t x k w = some (k', w') → C.step t k w k' w' :=
    fun t x k w k' w' h => ⟨x, h⟩
  let p : Pages :=
    ⟨fun i => .plain (i * 1024) (if i = 1 ∨ i = 2 then none else some .first), fun _ => false⟩
  let s₀ : Sys (Q.obj Bool (Fresh Q)) Ctl World :=
    ⟨⟨p, fun _ => .idle⟩, fun _ => Ctl.start (.copy kDontCareTag), World.blank⟩
  have h₀ : Initial _ C s₀ := ⟨⟨fun i _ => ⟨rfl, rfl⟩, fun _ => rfl⟩, fun _ => rfl, rfl⟩
  -- the first worker looks at its flags and calls `GetValid`
  let start := FineLockPEQueue.localActs true 3 ++ [.call true 0]
  -- one whole pass of the second worker, with the given starts of its two searches
  let copy (src dst : Nat) := FineLockPEQueue.localActs false 3 ++ FineLockPEQueue.callActs false src 4 ++
    FineLockPEQueue.localActs false 1 ++ FineLockPEQueue.callActs false dst 4 ++
    FineLockPEQueue.localActs false 1 ++ FineLockPEQueue.callActs false 0 2 ++ FineLockPEQueue.callActs false 0 3
  let race : List (FineLockPEQueue.Act Bool Nat) :=
    .obj true :: copy 3 0 ++ .obj true :: copy 2 3 ++ .obj true :: copy 4 2 ++
      [.obj true, .obj true, .obj true]
  have hrun : ((Q.run (Fresh Q) C choose s₀ start).any fun s =>
      (s.obj.op true).entersAtZero && watching Q (Fresh Q) true .valid s &&
        (watchedRun Q (Fresh Q) C choose true .valid s race).any fun s' =>
          (s'.obj.op true).failsValid &&
            (Q.act (Fresh Q) C choose s' (.ret true)).any fun s'' => (s''.ctl true).hasFailed) = true := by
    decide +kernel
  obtain ⟨s₁, hs₁, hfacts⟩ := (Option.any_eq_true _ _).mp hrun
  rw [Bool.and_eq_true, Bool.and_eq_true] at hfacts
  obtain ⟨⟨hentered, hwatch⟩, hrace⟩ := hfacts
  obtain ⟨s, hs, hfacts⟩ := (Option.any_eq_true _ _).mp hrace
  rw [Bool.and_eq_true] at hfacts
  obtain ⟨hfailed, hret⟩ := hfacts
  obtain ⟨s', hs', hended⟩ := (Option.any_eq_true _ _).mp hret
  have hop₁ : s₁.obj.op true = Q.enter 0 (.get .valid kDontCareTag) := Op.eq_of_entersAtZero hentered
  have hop : s.obj.op true = .done (.get .valid kDontCareTag) (.entry none) :=
    Op.eq_of_failsValid hfailed
  have hreach : Reachable _ C s₁ := ⟨s₀, h₀, FineLockPEQueue.steps_of_run hchoose hs₁⟩
  have hwatched := watched_of_run hchoose (.enter hreach hop₁ (watching_iff.mp hwatch).1) hs
  exact ⟨s, hwatched, hop, s', FineLockPEQueue.step_of_act hchoose hs', Ctl.ended_of_hasFailed hended⟩

/-- A copy worker over five pages that has just called `GetValid`: its search can go on, and the
worker has not failed. -/
theorem search_finds_five :
    let Q : FineLockPEQueue := ⟨⟨5, 5, 7, 8⟩, 1024, .kTouch⟩
    let C := workers (Sat.small 5 2) (fun _ : Bool => .copy kDontCareTag) (· = World.blank)
      (fun _ _ => False)
    ∃ s : Sys (Q.obj Bool (Fresh Q)) Ctl World, Provided C true s ∧
      s.obj.op true = Q.enter 0 (.get .valid kDontCareTag) ∧
      (∃ p o, Q.microStep s.obj.toPages (s.obj.op true) = some (p, o) ∧
        Q.stepsLeft o < Q.stepsLeft (s.obj.op true)) ∧ ¬ (s.ctl true).Ended false := by
  intro Q C
  have hQ : FineLockPEQueue.construct 5 1024 = some Q := by decide +kernel
  obtain ⟨hsearch, hworker⟩ := search_finds (τ := Bool) (by decide) (by decide) hQ (by decide)
  let p : Pages := ⟨fun i => .plain (i * 1024) (some .first), fun _ => false⟩
  let s₀ : Sys (Q.obj Bool (Fresh Q)) Ctl World :=
    ⟨⟨p, fun _ => .idle⟩, fun _ => Ctl.start (.copy kDontCareTag), World.blank⟩
  have h₀ : Provided C true s₀ :=
    .init ⟨⟨fun i _ => ⟨rfl, rfl⟩, fun _ => rfl⟩, fun _ => rfl, rfl⟩
  have h₁ := h₀.step (.loc (t := true) rfl ⟨0, rfl⟩) (fun _ h => by cases h) (fun _ h => by cases h)
  have h₂ := h₁.step (.loc (t := true) rfl ⟨0, rfl⟩) (fun _ h => by cases h) (fun _ h => by cases h)
  have h₃ := h₂.step (.loc (t := true) rfl ⟨0, rfl⟩) (fun _ h => by cases h) (fun _ h => by cases h)
  have h₄ := h₃.step (.call (t := true) (r := .get .valid kDontCareTag) rfl
    ⟨rfl, 0, by decide, rfl⟩) (fun _ h => by cases h) (fun kind h => by
      obtain rfl : kind = .valid := by
        cases h
        rfl
      exact ⟨0, by decide, rfl, rfl⟩)
  refine ⟨_, h₄, rfl, ?_, hworker _ _ _ _ true rfl _ h₄⟩
  rcases hsearch workersDiscipline true .valid _
    (.enter h₄.reachable rfl ⟨0, by decide, rfl, rfl⟩) with ⟨pe, hdone⟩ | hstep
  · cases hdone
  · exact hstep

end StressAppTest.FineLock
