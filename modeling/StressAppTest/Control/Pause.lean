import Mathlib.Tactic.Ring
import StressAppTest.Control.WorkerStatus
import StressAppTest.Library.Tally

/-!
# The pause protocol

All threads agree on whether a pause is under way. `Ctl.mid` says from the control thread and the
status whether the first wait of a pause has been passed and the second has not, and `Pc.Allowed`
where a worker can then be: in the middle of a pause every worker that is left is between its two
waits, and outside of it none is. The barrier trips only when every worker that is left and the
control thread have come (`Inv.all_waiting`), so that all of them cross the middle together.

* `Inv.step`: one step keeps the invariant.
* `pause_protocol`: the invariant in terms of the barrier and of the calls.
* `barrier_ahead`: inside `RemoveSelf` the barrier and the count are not in step.
-/

namespace StressAppTest.Control

variable {τ : Type}

/-- The control thread is between the two waits of a pause. -/
def Ctl.mid : Ctl → Status → Bool
  | .idle, status | .lock _, status | .write _, status => status == .pause
  | .unlock _ prev, _ => prev == .pause
  | .arrive .pause, _ | .waiting .pause, _ | .leave .resume, _ => false
  | .leave .pause, _ | .arrive .resume, _ | .waiting .resume, _ => true

/-- The status that the control thread has set. -/
def Ctl.Agrees : Ctl → Status → Prop
  | .unlock o _, status => status = o.status
  | .arrive .pause, status | .waiting .pause, status | .leave .pause, status => status = .pause
  | .arrive .resume, status | .waiting .resume, status | .leave .resume, status => status ≠ .pause
  | _, _ => True

/-- `PauseWorkers` has returned, and at most `PauseWorkers` is called again. -/
def Ctl.Quiet : Ctl → Status → Prop
  | .idle, status | .lock .pauseWorkers, status | .write .pauseWorkers, status => status = .pause
  | .unlock .pauseWorkers prev, _ => prev = .pause
  | _, _ => False

/-- The worker is inside a call, between its two waits. -/
def Pc.between : Pc → Bool
  | .leave _ .pause | .arrive _ .resume | .waiting _ .resume => true
  | _ => false

/-- Where a worker can be in the middle of a pause, and outside of it. -/
def Pc.Allowed (status : Status) : Bool → Pc → Prop
  | true, p => p = .gone ∨ p.between = true
  | false, .leave _ .pause | false, .arrive _ .resume | false, .waiting _ .resume => False
  | false, .arrive _ .pause | false, .waiting _ .pause => status = .pause
  | false, .unlock .continueRunning seen => seen = status
  | false, .unlock .removeSelf seen => seen = .pause ∧ status = .pause
  | false, .lockNum | false, .destroy | false, .init | false, .decrement | false, .unlockNum
  | false, .unlockStatus => status ≠ .pause
  | false, _ => True

/-- The number of workers that are counted. -/
def State.counted [Fintype τ] (s : State τ) : Nat :=
  (Finset.univ.filter fun t => (s.pc t).countedOut = false).card

/-- The invariant of the protocol. -/
structure Inv [Fintype τ] (s : State τ) : Prop where
  excl : s.ctl.writes = true → ∀ t, (s.pc t).reads = false
  agrees : s.ctl.Agrees s.status
  allowed : ∀ t, (s.pc t).Allowed s.status (s.ctl.mid s.status)
  mutex : ∀ t t', (s.pc t).holdsNum = true → (s.pc t').holdsNum = true → t = t'
  num : s.numWorkers = s.counted
  renewed : ∀ t, s.pc t = .decrement → s.barrier = some s.numWorkers
  whole : (∀ t, s.pc t ≠ .init ∧ s.pc t ≠ .decrement) → s.barrier = some (s.numWorkers + 1)
  paused : s.paused = true → s.ctl.Quiet s.status

section Steps

variable [Fintype τ] [DecidableEq τ] {s : State τ}

omit [DecidableEq τ] in
theorem inv_initial : Inv (State.initial τ) where
  excl h := by cases h
  agrees := trivial
  allowed _ := trivial
  mutex _ _ h := by cases h
  num := by simp [State.initial, State.counted, Pc.countedOut]
  renewed _ h := by cases h
  whole _ := rfl
  paused h := by cases h

/-- **One worker moves**, and only its own part of the count changes. -/
theorem counted_update (s : State τ) (t : τ) (p : Pc) :
    (s.setPc t p).counted + (if (s.pc t).countedOut then 0 else 1) =
      s.counted + if p.countedOut then 0 else 1 := by
  have htally (s : State τ) : s.counted = Tally.tally (fun p : Pc => !p.countedOut) s.pc := by
    apply congrArg Finset.card
    apply Finset.filter_congr
    intro t _
    rw [Bool.not_eq_true']
  have hone (b : Bool) : (if !b then 1 else 0) = if b then 0 else 1 := by cases b <;> rfl
  have hmove := Tally.tally_update (fun p : Pc => !p.countedOut) s.pc t p
  rw [hone, hone] at hmove
  rw [htally, htally]
  exact hmove

theorem counted_setPc {t : τ} {p : Pc} (h : p.countedOut = (s.pc t).countedOut) :
    (s.setPc t p).counted = s.counted := by
  have hmove := counted_update s t p
  rw [h] at hmove
  exact Nat.add_right_cancel hmove

/-- A worker moves, and neither the count nor the barrier changes. -/
theorem Inv.setPc (h : Inv s) {t : τ} {p : Pc}
    (hreads : p.reads = true → s.ctl.writes = false ∨ (s.pc t).reads = true)
    (hallowed : p.Allowed s.status (s.ctl.mid s.status))
    (hmutex : p.holdsNum = true → (s.pc t).holdsNum = true ∨ ∀ t', (s.pc t').holdsNum = false)
    (hcount : p.countedOut = (s.pc t).countedOut) (hdec : p ≠ .decrement)
    (hinit' : s.pc t ≠ .init) (hdec' : s.pc t ≠ .decrement) : Inv (s.setPc t p) where
  excl hw t' := by
    change (Function.update s.pc t p t').reads = false
    by_cases ht : t' = t
    · subst ht
      rw [Function.update_self]
      by_contra hr
      rcases hreads (by simpa using hr) with hctl | hold
      · exact absurd (hctl.symm.trans hw) Bool.false_ne_true
      · exact absurd ((h.excl hw t').symm.trans hold) Bool.false_ne_true
    · rw [Function.update_of_ne ht]
      exact h.excl hw t'
  agrees := h.agrees
  allowed t' := by
    change (Function.update s.pc t p t').Allowed s.status (s.ctl.mid s.status)
    by_cases ht : t' = t
    · subst ht
      rw [Function.update_self]
      exact hallowed
    · rw [Function.update_of_ne ht]
      exact h.allowed t'
  mutex t₁ t₂ h₁ h₂ := by
    have hold (t' : τ) (h' : (Function.update s.pc t p t').holdsNum = true) :
        (s.pc t').holdsNum = true ∨ (t' = t ∧ ∀ t', (s.pc t').holdsNum = false) := by
      by_cases ht : t' = t
      · subst ht
        rw [Function.update_self] at h'
        exact (hmutex h').imp_right fun hnone => ⟨rfl, hnone⟩
      · rw [Function.update_of_ne ht] at h'
        exact Or.inl h'
    rcases hold t₁ h₁ with hold₁ | ⟨ht₁, hnone⟩
    · rcases hold t₂ h₂ with hold₂ | ⟨-, hnone⟩
      · exact h.mutex t₁ t₂ hold₁ hold₂
      · exact absurd ((hnone t₁).symm.trans hold₁) Bool.false_ne_true
    · rcases hold t₂ h₂ with hold₂ | ⟨ht₂, -⟩
      · exact absurd ((hnone t₂).symm.trans hold₂) Bool.false_ne_true
      · exact ht₁.trans ht₂.symm
  num := h.num.trans (congrArg Nat.cast (counted_setPc hcount).symm)
  renewed t' ht' := by
    change Function.update s.pc t p t' = .decrement at ht'
    by_cases ht : t' = t
    · subst ht
      rw [Function.update_self] at ht'
      exact absurd ht' hdec
    · rw [Function.update_of_ne ht] at ht'
      exact h.renewed t' ht'
  whole hall := by
    refine h.whole fun t' => ?_
    by_cases ht : t' = t
    · subst ht
      exact ⟨hinit', hdec'⟩
    · have hold := hall t'
      simp only [State.setPc, Function.update_of_ne ht] at hold
      exact hold
  paused := h.paused

omit [DecidableEq τ] in
/-- The moves of a worker stay where it is allowed to be. -/
theorem Inv.allowed_move (h : Inv s) {t : τ} {p : Pc} (hmove : Move s (s.pc t) p) :
    p.Allowed s.status (s.ctl.mid s.status) := by
  have hold := h.allowed t
  generalize s.pc t = q at hmove hold
  cases hmid : s.ctl.mid s.status with
  | true =>
      rw [hmid] at hold
      cases hmove <;> simp [Pc.Allowed, Pc.between] at hold ⊢
  | false =>
      rw [hmid] at hold
      cases hmove with
      | call | acquire | returns | again | release => trivial
      | getStatus => rfl
      | obey hpause => exact ⟨rfl, hpause⟩
      | keep hpause => exact hpause
      | @pause c =>
          cases c with
          | continueRunning => exact hold.symm
          | removeSelf => exact hold.2
      | resume => exact hold
      | acquireNum => exact hold
      | releaseNum => exact hold

theorem Inv.move (h : Inv s) {t : τ} {p : Pc} (hmove : Move s (s.pc t) p) : Inv (s.setPc t p) := by
  have hallowed := h.allowed_move hmove
  have hside : (p.reads = true → s.ctl.writes = false ∨ (s.pc t).reads = true) ∧
      (p.holdsNum = true → (s.pc t).holdsNum = true ∨ ∀ t', (s.pc t').holdsNum = false) ∧
      p.countedOut = (s.pc t).countedOut ∧ p ≠ .decrement ∧ s.pc t ≠ .init ∧ s.pc t ≠ .decrement := by
    generalize s.pc t = q at hmove
    cases hmove with
    | acquire hlock => simp [hlock, Pc.holdsNum, Pc.countedOut]
    | acquireNum hlock => simp [hlock, Pc.reads, Pc.countedOut]
    | _ => simp [Pc.reads, Pc.holdsNum, Pc.countedOut]
  obtain ⟨hreads, hmutex, hcount, hdec, hinit', hdec'⟩ := hside
  exact h.setPc hreads hallowed hmutex hcount hdec hinit' hdec'

omit [DecidableEq τ] in
/-- In the critical section the control thread does not hold the lock for writing, and no pause is
under way. -/
theorem Inv.critical (h : Inv s) {t : τ} (hnum : (s.pc t).holdsNum = true) :
    s.ctl.writes = false ∧ s.ctl.mid s.status = false ∧ s.status ≠ .pause := by
  have hreads : (s.pc t).reads = true := by
    cases hpc : s.pc t <;> rw [hpc] at hnum <;> first | rfl | cases hnum
  have hwrites : s.ctl.writes = false := by
    by_contra hw
    rw [Bool.not_eq_false] at hw
    exact absurd ((h.excl hw t).symm.trans hreads) Bool.false_ne_true
  have hold := h.allowed t
  cases hmid : s.ctl.mid s.status with
  | true =>
      rw [hmid] at hold
      rcases hold with hgone | hbetween
      · rw [hgone] at hnum
        cases hnum
      · cases hpc : s.pc t <;> rw [hpc] at hnum hbetween <;> cases hnum <;> cases hbetween
  | false =>
      rw [hmid] at hold
      refine ⟨hwrites, rfl, ?_⟩
      cases hpc : s.pc t <;> rw [hpc] at hnum hold <;> first | exact hold | cases hnum

omit [DecidableEq τ] in
/-- In the critical section no thread is at the barrier. -/
theorem Inv.not_stands (h : Inv s) {t : τ} (hnum : (s.pc t).holdsNum = true) :
    s.ctl.stands = none ∧ ∀ t', (s.pc t').stands = none := by
  obtain ⟨-, hmid, hstatus⟩ := h.critical hnum
  have hagrees := h.agrees
  refine ⟨?_, fun t' => ?_⟩
  · cases hctl : s.ctl with
    | arrive w | waiting w =>
        rw [hctl] at hagrees hmid
        cases w with
        | pause => exact absurd hagrees hstatus
        | resume => cases hmid
    | _ => rfl
  · have hallowed := h.allowed t'
    rw [hmid] at hallowed
    cases hpc : s.pc t' with
    | arrive c w | waiting c w =>
        rw [hpc] at hallowed
        cases w with
        | pause => exact absurd hallowed hstatus
        | resume => exact hallowed.elim
    | _ => rfl

/-- A worker moves inside the critical section. -/
theorem Inv.setCritical (h : Inv s) {t : τ} {p : Pc} {num : Int} {barrier : Option Int}
    (hold : (s.pc t).holdsNum = true) (hnew : p.holdsNum = true)
    (hcount : num = (s.setPc t p).counted) (hdec : p = .decrement → barrier = some num)
    (hwhole : p ≠ .init → p ≠ .decrement → barrier = some (num + 1)) :
    Inv { s.setPc t p with numWorkers := num, barrier := barrier } := by
  obtain ⟨hwrites, hmid, hstatus⟩ := h.critical hold
  have hother {t' : τ} (ht : t' ≠ t) : (s.pc t').holdsNum = false := by
    by_contra hheld
    exact ht (h.mutex t' t (by simpa using hheld) hold)
  refine ⟨fun hw => ?_, h.agrees, fun t' => ?_, fun t₁ t₂ h₁ h₂ => ?_, hcount, fun t' ht' => ?_, fun hall => ?_,
    h.paused⟩
  · exact absurd (hwrites.symm.trans hw) Bool.false_ne_true
  · change (Function.update s.pc t p t').Allowed s.status (s.ctl.mid s.status)
    by_cases ht : t' = t
    · subst ht
      rw [Function.update_self, hmid]
      cases p <;> first | exact hstatus | cases hnew
    · rw [Function.update_of_ne ht]
      exact h.allowed t'
  · have hself (t' : τ) (h' : (Function.update s.pc t p t').holdsNum = true) : t' = t := by
      by_contra ht
      rw [Function.update_of_ne ht, hother ht] at h'
      cases h'
    exact (hself t₁ h₁).trans (hself t₂ h₂).symm
  · change Function.update s.pc t p t' = .decrement at ht'
    by_cases ht : t' = t
    · subst ht
      rw [Function.update_self] at ht'
      exact hdec ht'
    · rw [Function.update_of_ne ht] at ht'
      have hnone := hother ht
      rw [ht'] at hnone
      cases hnone
  · have hself := hall t
    simp only [State.setPc, Function.update_self] at hself
    exact hwhole hself.1 hself.2

/-- One worker less is counted. -/
theorem counted_decrement {t : τ} (h : s.pc t = .decrement) :
    (s.setPc t .unlockNum).counted + 1 = s.counted := by
  have hmove := counted_update s t .unlockNum
  rw [h] at hmove
  exact hmove

omit [DecidableEq τ] in
/-- The control thread moves, and a pause is neither begun nor ended. -/
theorem Inv.setCtl (h : Inv s) {c : Ctl} {paused stopped : Bool}
    (hwrites : c.writes = true → ∀ t, (s.pc t).reads = false) (hagrees : c.Agrees s.status)
    (hmid : c.mid s.status = s.ctl.mid s.status) (hpaused : paused = true → c.Quiet s.status) :
    Inv { s with ctl := c, paused := paused, stopped := stopped } := by
  refine ⟨hwrites, hagrees, fun t => ?_, h.mutex, h.num, h.renewed, h.whole, hpaused⟩
  change (s.pc t).Allowed s.status (c.mid s.status)
  rw [hmid]
  exact h.allowed t

omit [DecidableEq τ] in
/-- `SetStatus`: no worker holds the lock. -/
theorem Inv.setStatus (h : Inv s) {o : Order} (hctl : s.ctl = .write o) :
    Inv { s with ctl := .unlock o s.status, status := o.status } := by
  have hwrites : s.ctl.writes = true := by rw [hctl]; rfl
  refine ⟨fun _ => h.excl hwrites, rfl, fun t => ?_, h.mutex, h.num, h.renewed, h.whole, fun hp => ?_⟩
  · have hold := h.allowed t
    have hreads := h.excl hwrites t
    rw [hctl] at hold
    change (s.pc t).Allowed o.status (s.status == .pause)
    change (s.pc t).Allowed s.status (s.status == .pause) at hold
    cases hstatus : s.status == .pause with
    | true =>
        rw [hstatus] at hold
        exact hold
    | false =>
        rw [hstatus] at hold
        -- a worker that waits for a pause would need the status of a pause
        have hne : s.status ≠ .pause := by simpa using hstatus
        cases hpc : s.pc t with
        | working | lock c | gone => trivial
        | leave c w =>
            rw [hpc] at hold
            cases w with
            | pause => exact hold
            | resume => trivial
        | arrive c w | waiting c w =>
            rw [hpc] at hold
            cases w with
            | pause => exact absurd hold hne
            | resume => exact hold
        | _ =>
            rw [hpc] at hreads
            cases hreads
  · have hquiet := h.paused hp
    rw [hctl] at hquiet
    cases o with
    | pauseWorkers => exact hquiet
    | resumeWorkers => exact hquiet.elim
    | stopWorkers => exact hquiet.elim

omit [DecidableEq τ] in
/-- While a thread is at the barrier no worker is in the critical section. -/
theorem Inv.calm (h : Inv s) (hstands : s.ctl.stands ≠ none ∨ ∃ t, (s.pc t).stands ≠ none) (t : τ) :
    (s.pc t).holdsNum = false := by
  by_contra hnum
  obtain ⟨hctl, hpc⟩ := h.not_stands (t := t) (by simpa using hnum)
  rcases hstands with hne | ⟨t', hne⟩
  · exact hne hctl
  · exact hne (hpc t')

omit [DecidableEq τ] in
/-- **The barrier trips only when all have come.** -/
theorem Inv.all_waiting (h : Inv s) {count : Int} (hbarrier : s.barrier = some count)
    (hstands : s.ctl.stands ≠ none ∨ ∃ t, (s.pc t).stands ≠ none) (hfull : count ≤ s.arrived) :
    s.ctl.isWaiting = true ∧ ∀ t, (s.pc t).countedOut = false → (s.pc t).isWaiting = true := by
  have hcalm := h.calm hstands
  have hwhole := h.whole fun t => by
    have hnum := hcalm t
    refine ⟨fun hpc => ?_, fun hpc => ?_⟩ <;> rw [hpc] at hnum <;> cases hnum
  have hcount : count = s.counted + 1 := by
    rw [hwhole, h.num] at hbarrier
    exact (Option.some.inj hbarrier).symm
  have hsub : (Finset.univ.filter fun t => (s.pc t).isWaiting = true) ⊆
      Finset.univ.filter fun t => (s.pc t).countedOut = false := by
    refine Finset.monotone_filter_right _ fun t _ hwaiting => ?_
    cases hpc : s.pc t <;> rw [hpc] at hwaiting <;> first | rfl | cases hwaiting
  have hle := Finset.card_le_card hsub
  have hall : s.counted + 1 ≤ s.arrived := by
    rw [hcount] at hfull
    exact_mod_cast hfull
  unfold State.counted State.arrived at hall
  cases hctl : s.ctl.isWaiting with
  | false =>
      simp only [hctl, Bool.false_eq_true, if_false] at hall
      omega
  | true =>
      simp only [hctl, if_true] at hall
      have heq := Finset.eq_of_subset_of_card_le hsub (by omega)
      refine ⟨rfl, fun t ht => ?_⟩
      have hmem : t ∈ Finset.univ.filter fun t => (s.pc t).countedOut = false :=
        Finset.mem_filter.mpr ⟨Finset.mem_univ t, ht⟩
      rw [← heq] at hmem
      exact (Finset.mem_filter.mp hmem).2

omit [DecidableEq τ] in
/-- When all have come, they wait for the same. -/
theorem Inv.gone_or_waiting (h : Inv s) {w : Wait} (hctl : s.ctl = .waiting w)
    (hall : ∀ t, (s.pc t).countedOut = false → (s.pc t).isWaiting = true) (t : τ) :
    s.pc t = .gone ∨ ∃ c, s.pc t = .waiting c w := by
  have hold := h.allowed t
  have hwait := hall t
  have hagrees := h.agrees
  rw [hctl] at hold hagrees
  cases w with
  | pause =>
      have hstatus : s.status = .pause := hagrees
      cases hpc : s.pc t with
      | gone => exact Or.inl rfl
      | waiting c w =>
          rw [hpc] at hold
          cases w with
          | pause => exact Or.inr ⟨c, rfl⟩
          | resume => exact hold.elim
      | unlockNum | unlockStatus =>
          rw [hpc] at hold
          exact absurd hstatus hold
      | _ =>
          rw [hpc] at hwait
          cases hwait rfl
  | resume =>
      rcases hold with hgone | hbetween
      · exact Or.inl hgone
      · cases hpc : s.pc t with
        | waiting c w =>
            rw [hpc] at hbetween
            cases w with
            | pause => cases hbetween
            | resume => exact Or.inr ⟨c, rfl⟩
        | gone | unlockNum | unlockStatus =>
            rw [hpc] at hbetween
            cases hbetween
        | _ =>
            rw [hpc] at hwait
            cases hwait rfl

omit [DecidableEq τ] in
/-- A trip takes all threads across the middle of the pause together. -/
theorem Inv.tripIfFull (h : Inv s) {count : Int} (hbarrier : s.barrier = some count)
    (hstands : s.ctl.stands ≠ none ∨ ∃ t, (s.pc t).stands ≠ none) : Inv (s.tripIfFull count) := by
  unfold State.tripIfFull
  split
  · next hfull =>
    obtain ⟨hctl, hall⟩ := h.all_waiting hbarrier hstands hfull
    obtain ⟨w, hw⟩ : ∃ w, s.ctl = .waiting w := by
      cases hc : s.ctl with
      | waiting w => exact ⟨w, rfl⟩
      | _ =>
          rw [hc] at hctl
          cases hctl
    have hpcs := h.gone_or_waiting hw hall
    have htrip (t : τ) : (s.pc t).trip = .gone ∨ ∃ c, (s.pc t).trip = .leave c w := by
      rcases hpcs t with hpc | ⟨c, hpc⟩
      · exact Or.inl (by rw [hpc]; rfl)
      · exact Or.inr ⟨c, by rw [hpc]; rfl⟩
    have hagrees := h.agrees
    rw [hw] at hagrees
    refine ⟨fun hwrites => ?_, ?_, fun t => ?_, fun t t' ht => ?_, ?_, fun t ht => ?_, fun _ => ?_,
      fun hpaused => ?_⟩
    · simp only [hw] at hwrites
      cases hwrites
    · simp only [hw]
      cases w with
      | pause => exact hagrees
      | resume => exact hagrees
    · simp only [hw]
      rcases htrip t with hpc | ⟨c, hpc⟩ <;> rw [hpc] <;> cases w
      · exact Or.inl rfl
      · trivial
      · exact Or.inr rfl
      · trivial
    · rcases htrip t with hpc | ⟨c, hpc⟩ <;> simp only [hpc] at ht <;> cases ht
    · rw [h.num]
      refine congrArg Nat.cast (congrArg Finset.card (Finset.filter_congr fun t _ => ?_))
      change (s.pc t).countedOut = false ↔ (s.pc t).trip.countedOut = false
      rcases hpcs t with hpc | ⟨c, hpc⟩ <;> rw [hpc] <;> rfl
    · rcases htrip t with hpc | ⟨c, hpc⟩ <;> simp only [hpc] at ht <;> cases ht
    · refine h.whole fun t => ?_
      rcases hpcs t with hpc | ⟨c, hpc⟩ <;> simp [hpc]
    · have hquiet := h.paused hpaused
      rw [hw] at hquiet
      exact hquiet.elim
  · exact h

theorem Order.wait_eq_some {o : Order} {prev : Status} {w : Wait} (h : o.wait prev = some w) :
    (o = .pauseWorkers ∧ prev ≠ .pause ∧ w = .pause) ∨
      (o.status ≠ .pause ∧ prev = .pause ∧ w = .resume) := by
  cases o <;> cases prev <;> cases h <;> simp [Order.status]

theorem Order.wait_eq_none {o : Order} {prev : Status} (h : o.wait prev = none) :
    (o = .pauseWorkers ∧ prev = .pause) ∨ (o.status ≠ .pause ∧ prev ≠ .pause) := by
  cases o <;> cases prev <;> cases h <;> simp [Order.status]

/-- **One step keeps the invariant.** -/
theorem Inv.step {s' : State τ} (h : Inv s) (hstep : Step s s') : Inv s' := by
  cases hstep with
  | move t hmove => exact h.move hmove
  | destroy t hpc =>
      refine h.setCritical (by rw [hpc]; rfl) rfl ?_ (by simp) (by simp)
      exact h.num.trans (congrArg Nat.cast (counted_setPc (by rw [hpc]; rfl)).symm)
  | init t hpc =>
      refine h.setCritical (by rw [hpc]; rfl) rfl ?_ (fun _ => rfl) (by simp)
      exact h.num.trans (congrArg Nat.cast (counted_setPc (by rw [hpc]; rfl)).symm)
  | decrement t hpc =>
      refine h.setCritical (by rw [hpc]; rfl) rfl ?_ (by simp) fun _ _ => ?_
      · rw [h.num, ← counted_decrement hpc]
        push_cast
        ring
      · change s.barrier = some (s.numWorkers - 1 + 1)
        rw [h.renewed t hpc, sub_add_cancel]
  | @arrive t c w count hpc hbarrier =>
      have hold := h.allowed t
      have hwaiting : Inv (s.setPc t (.waiting c w)) := by
        refine h.setPc (by simp [Pc.reads]) ?_ (by simp [Pc.holdsNum]) (by rw [hpc]; rfl) (by simp)
          (by simp [hpc]) (by simp [hpc])
        rw [hpc] at hold
        cases hmid : s.ctl.mid s.status with
        | true =>
            rw [hmid] at hold
            rcases hold with hgone | hbetween
            · cases hgone
            · exact Or.inr (by cases w <;> exact hbetween)
        | false =>
            rw [hmid] at hold
            cases w <;> exact hold
      refine hwaiting.tripIfFull hbarrier (Or.inr ⟨t, ?_⟩)
      simp [State.setPc, Pc.stands]
  | order o hctl hstopped =>
      refine h.setCtl (by simp [Ctl.writes]) trivial (by rw [hctl]; rfl) fun hp => ?_
      rw [Bool.and_eq_true, beq_iff_eq] at hp
      have hquiet := h.paused hp.1
      rw [hctl] at hquiet
      rw [hp.2]
      exact hquiet
  | @acquire o hctl hlock =>
      refine h.setCtl (fun _ => hlock) trivial (by rw [hctl]; rfl) fun hp => ?_
      have hquiet := h.paused hp
      rw [hctl] at hquiet
      cases o <;> exact hquiet
  | setStatus hctl => exact h.setStatus hctl
  | @wait o prev w hctl hwait =>
      have hagrees := h.agrees
      have hquiet := h.paused
      rw [hctl] at hagrees hquiet
      refine h.setCtl (by simp [Ctl.writes]) ?_ ?_ fun hp => ?_
      · rcases Order.wait_eq_some hwait with ⟨rfl, -, rfl⟩ | ⟨hne, -, rfl⟩
        · exact hagrees
        · exact hagrees ▸ hne
      · rw [hctl]
        rcases Order.wait_eq_some hwait with ⟨-, hprev, rfl⟩ | ⟨-, hprev, rfl⟩
        · exact (beq_eq_false_iff_ne.mpr hprev).symm
        · exact (beq_iff_eq.mpr hprev).symm
      · rcases Order.wait_eq_some hwait with ⟨rfl, hprev, -⟩ | ⟨hne, -, -⟩
        · exact absurd (hquiet hp) hprev
        · cases o with
          | pauseWorkers => exact absurd rfl hne
          | resumeWorkers => exact (hquiet hp).elim
          | stopWorkers => exact (hquiet hp).elim
  | @noWait o prev hctl hwait =>
      have hagrees := h.agrees
      have hquiet := h.paused
      rw [hctl] at hagrees hquiet
      refine h.setCtl (by simp [Ctl.writes]) trivial ?_ fun hp => ?_
      · rw [hctl]
        change (s.status == .pause) = (prev == .pause)
        rw [show s.status = o.status from hagrees]
        rcases Order.wait_eq_none hwait with ⟨rfl, hprev⟩ | ⟨hne, hprev⟩
        · rw [hprev]
          rfl
        · rw [beq_eq_false_iff_ne.mpr hprev, beq_eq_false_iff_ne.mpr hne]
      · rw [Bool.or_eq_true, beq_iff_eq] at hp
        cases o with
        | pauseWorkers => exact hagrees
        | resumeWorkers => exact (hquiet (hp.resolve_right (by simp))).elim
        | stopWorkers => exact (hquiet (hp.resolve_right (by simp))).elim
  | @arriveCtl w count hctl hbarrier =>
      have hagrees := h.agrees
      have hquiet := h.paused
      rw [hctl] at hagrees hquiet
      have hwaiting : Inv { s with ctl := .waiting w } := by
        refine h.setCtl (by simp [Ctl.writes]) ?_ ?_ fun hp => (hquiet hp).elim
        · cases w <;> exact hagrees
        · rw [hctl]
          cases w <;> rfl
      exact hwaiting.tripIfFull hbarrier (Or.inl (by simp [Ctl.stands]))
  | @leaveCtl w hctl =>
      have hagrees := h.agrees
      have hquiet := h.paused
      rw [hctl] at hagrees hquiet
      refine h.setCtl (by simp [Ctl.writes]) trivial ?_ fun hp => ?_
      · rw [hctl]
        cases w with
        | pause => exact beq_iff_eq.mpr hagrees
        | resume => exact beq_eq_false_iff_ne.mpr hagrees
      · rw [Bool.or_eq_true, beq_iff_eq] at hp
        rcases hp with hp | rfl
        · exact (hquiet hp).elim
        · exact hagrees

/-- A thread is at the barrier, which has not tripped, or is about to arrive there. -/
def State.Stands (s : State τ) (w : Wait) : Prop :=
  s.ctl.stands = some w ∨ ∃ t, (s.pc t).stands = some w

theorem Reachable.inv (h : Reachable s) : Inv s := by
  induction h with
  | refl => exact inv_initial
  | tail _ hstep ih => exact ih.step hstep

omit [DecidableEq τ] in
/-- In the middle of a pause threads wait for the end of it, and outside of it for the beginning. -/
theorem Inv.stands (h : Inv s) {w : Wait} (hw : s.Stands w) :
    w = if s.ctl.mid s.status then .resume else .pause := by
  have hagrees := h.agrees
  rcases hw with hctl | ⟨t, hpc⟩
  · cases hc : s.ctl with
    | arrive w' | waiting w' =>
        rw [hc] at hctl
        cases hctl
        cases w <;> rfl
    | _ =>
        rw [hc] at hctl
        cases hctl
  · have hold := h.allowed t
    cases hp : s.pc t with
    | arrive c w' | waiting c w' =>
        rw [hp] at hpc hold
        cases hpc
        cases hmid : s.ctl.mid s.status with
        | true =>
            rw [hmid] at hold
            rcases hold with hgone | hbetween
            · cases hgone
            · cases w with
              | pause => cases hbetween
              | resume => rfl
        | false =>
            rw [hmid] at hold
            cases w with
            | pause => rfl
            | resume => exact hold.elim
    | _ =>
        rw [hp] at hpc
        cases hpc

omit [DecidableEq τ] in
theorem Inv.between_of_paused (h : Inv s) (hp : s.paused = true) (t : τ) :
    s.pc t = .gone ∨ (s.pc t).between = true := by
  have hquiet := h.paused hp
  have hmid : s.ctl.mid s.status = true := by
    cases hctl : s.ctl with
    | idle =>
        rw [hctl] at hquiet
        exact beq_iff_eq.mpr hquiet
    | lock o | write o | unlock o prev =>
        rw [hctl] at hquiet
        cases o with
        | pauseWorkers => exact beq_iff_eq.mpr hquiet
        | resumeWorkers => exact hquiet.elim
        | stopWorkers => exact hquiet.elim
    | arrive w | waiting w | leave w =>
        rw [hctl] at hquiet
        exact hquiet.elim
  have hold := h.allowed t
  rw [hmid] at hold
  exact hold

end Steps

/-- **The pause protocol.** In every state that can be reached: unless a worker is between the two
calls that make the barrier anew and its decrement, the barrier is for the counted workers and the
control thread; those are the workers that have not decremented the count; no thread is at the
barrier, or about to be, while a worker makes it anew; all threads at the barrier wait for the same,
so no pause trips together with a resume; and from the return of `PauseWorkers` on, until a call that
ends the pause, each worker that is left is inside a call, between its two waits. -/
theorem pause_protocol [Fintype τ] [DecidableEq τ] {s : State τ} (h : Reachable s) :
    ((∀ t, s.pc t ≠ .init ∧ s.pc t ≠ .decrement) → s.barrier = some (s.numWorkers + 1)) ∧
    s.numWorkers = s.counted ∧
    (∀ t, s.pc t = .destroy ∨ s.pc t = .init → ∀ w, ¬ s.Stands w) ∧
    (∀ w w', s.Stands w → s.Stands w' → w = w') ∧
    (s.paused = true → ∀ t, s.pc t = .gone ∨ (s.pc t).between = true) := by
  have hinv := h.inv
  refine ⟨hinv.whole, hinv.num, fun t ht w hw => ?_, fun w w' hw hw' => ?_, hinv.between_of_paused⟩
  · obtain ⟨hctl, hpc⟩ := hinv.not_stands (t := t) (by rcases ht with ht | ht <;> rw [ht] <;> rfl)
    rcases hw with hw | ⟨t', hw⟩
    · rw [hctl] at hw
      cases hw
    · rw [hpc t'] at hw
      cases hw
  · exact (hinv.stands hw).trans (hinv.stands hw').symm

/-- A state with one worker. -/
def solo (p : Pc) (c : Ctl) (status : Status) (paused : Bool) : State Unit :=
  ⟨1, status, some 2, fun _ => p, c, paused, false⟩

theorem solo_setPc (p q : Pc) (c : Ctl) (status : Status) (paused : Bool) :
    (solo p c status paused).setPc () q = solo q c status paused := by
  simp only [solo, State.setPc, State.mk.injEq, true_and, and_true]
  funext t
  rfl

theorem Reachable.solo_move {p q : Pc} {c : Ctl} {status : Status} {paused : Bool}
    (h : Reachable (solo p c status paused)) (hmove : Move (solo p c status paused) p q) :
    Reachable (solo q c status paused) := by
  rw [← solo_setPc p]
  exact h.tail (.move () hmove)

/-- A worker has just taken the count of itself. -/
theorem reachable_destroy : Reachable (solo .destroy .idle .run false) := by
  have hworking : Reachable (solo .working .idle .run false) := .refl
  have hlock := hworking.solo_move (.call .removeSelf)
  have hlook := hlock.solo_move (.acquire rfl)
  have hkeep := hlook.solo_move (.keep (by decide))
  exact hkeep.solo_move (.acquireNum fun _ => rfl)

/-- Inside `RemoveSelf` the barrier is destroyed, and then already counts one party less than the
workers and the control thread; and afterwards a worker is counted out that has not left. -/
theorem barrier_ahead :
    (∃ s : State Unit, Reachable s ∧ s.barrier = none) ∧
    (∃ s : State Unit, Reachable s ∧ s.barrier = some 1 ∧ s.numWorkers = 1) ∧
    ∃ s : State Unit, Reachable s ∧ s.numWorkers = 0 ∧ s.pc () ≠ .gone := by
  have hdestroy := reachable_destroy.tail (.destroy () rfl)
  have hinit := hdestroy.tail (.init () rfl)
  have hdecrement := hinit.tail (.decrement () rfl)
  refine ⟨⟨_, hdestroy, rfl⟩, ⟨_, hinit, rfl, rfl⟩, ⟨_, hdecrement, rfl, ?_⟩⟩
  intro hgone
  cases hgone

/-- One worker that has been paused, and the control thread has come back. -/
theorem pause_protocol_paused : ∃ s : State Unit, Reachable s ∧ s.paused = true ∧
    s.barrier = some (s.numWorkers + 1) ∧ (s.pc ()).between = true := by
  have hworking : Reachable (solo .working .idle .run false) := .refl
  have hlock : Reachable (solo .working (.lock .pauseWorkers) .run false) :=
    hworking.tail (.order .pauseWorkers rfl rfl)
  have hwrite : Reachable (solo .working (.write .pauseWorkers) .run false) :=
    hlock.tail (.acquire rfl fun _ => rfl)
  have hunlock : Reachable (solo .working (.unlock .pauseWorkers .run) .pause false) :=
    hwrite.tail (.setStatus (o := .pauseWorkers) rfl)
  have harrive : Reachable (solo .working (.arrive .pause) .pause false) := hunlock.tail (.wait rfl rfl)
  have hfirst : (solo .working (.waiting .pause) .pause false).tripIfFull 2 =
      solo .working (.waiting .pause) .pause false := rfl
  have hwaiting : Reachable (solo .working (.waiting .pause) .pause false) := by
    rw [← hfirst]
    exact harrive.tail (.arriveCtl rfl rfl)
  -- the worker sees the pause and is the last to come
  have hcall := hwaiting.solo_move (.call .continueRunning)
  have hlook := hcall.solo_move (.acquire rfl)
  have hseen := hlook.solo_move .getStatus
  have hcome := hseen.solo_move .pause
  have htrip : ((solo (.waiting .continueRunning .pause) (.waiting .pause) .pause false).tripIfFull 2) =
      solo (.leave .continueRunning .pause) (.leave .pause) .pause false := rfl
  have hleave : Reachable (solo (.leave .continueRunning .pause) (.leave .pause) .pause false) := by
    rw [← htrip, ← solo_setPc (.arrive .continueRunning .pause)]
    exact hcome.tail (.arrive () rfl rfl)
  have hidle : Reachable (solo (.leave .continueRunning .pause) .idle .pause true) :=
    hleave.tail (.leaveCtl (w := .pause) rfl)
  obtain ⟨hbarrier, -, -, -, hpaused⟩ := pause_protocol hidle
  refine ⟨_, hidle, rfl, hbarrier fun _ => ⟨?_, ?_⟩, (hpaused rfl ()).resolve_left ?_⟩
  all_goals
    intro h
    cases h

end StressAppTest.Control
