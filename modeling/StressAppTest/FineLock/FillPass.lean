import StressAppTest.FineLock.Sweep
import StressAppTest.FineLock.Overflow
import StressAppTest.FineLock.Solo

/-!
# The fill pass (`Sat::RunFillPass`)

The fill threads share out the pages beforehand: each takes its quota of empty pages, fills
them and puts them back as valid. As the quotas add up to the number of pages, a search that
has not found a page yet has one left to find: every page that another search has locked for a
moment is the one that search will get (`Start.search_succeeds`).

`RunFillPass` is the whole pass with its reset loop, which after a preset pass makes every page
empty again.
-/

namespace StressAppTest

open Threads Work Contract

/-- The fill as a pass. Its `WorkerStatus` is never told to stop. -/
@[reducible] def fillPass : Pass where
  kind := .empty
  log := World.filled
  running w := w.stop .fill = false
  lap := 8
  shared := true

namespace Sat

variable {sat : Sat} {presetOnly : Bool}

/-- A `FillThread` between two pages. -/
def FillLap (presetOnly : Bool) (job : Job) (x : Lap) : Prop :=
  job = .fill presetOnly x.left ∧ x.page = none ∧ x.finished = false ∧ 3 ≤ x.budget

/-- A `FillThread` ends well when it has used up its quota, and fails when a search has. -/
def FillEnd (status : Bool) (x : Lap) : Prop :=
  x.page = none ∧ if status then x.left = 0 else x.finished = true

theorem getPattern_zero_isSome (l : PatternList) : (l.getPattern 0).isSome := by
  have hpos := l.weight_pos
  unfold PatternList.getPattern
  cases hl : l.patterns with
  | nil =>
      rw [hl] at hpos
      simp at hpos
  | cons p ps => rfl

/-- The fill functions fill the page in hand and give its entry a pattern. -/
theorem filled_fillPageRandom (hpreset : presetOnly = true → sat.fillPreset ≠ .none)
    {pe : PageEntry} {Q : PageEntry × Bool → Lap → Prop} {x : Lap}
    (hpage : x.page = some (pe.offset, false)) (hbudget : 0 < x.budget)
    (h : ∀ pe' : PageEntry, pe'.offset = pe.offset → pe'.pattern.isSome →
      Q (pe', true) (x.handle pe.offset)) :
    (passContract fillPass).Follows Q (sat.fillPageRandom presetOnly pe) x := by
  apply pass_handle hpage hbudget
  intro n w
  cases presetOnly with
  | true =>
      cases hp : sat.fillPreset with
      | zero => exact ⟨rfl, id, fun _ => id, h _ rfl (getPattern_zero_isSome _)⟩
      | one => exact ⟨rfl, id, fun _ => id, h _ rfl (getPattern_zero_isSome _)⟩
      | none => exact absurd hp (hpreset rfl)
  | false =>
      obtain ⟨p, hp⟩ := Option.isSome_iff_exists.mp
        (sat.patternlist.getRandomPattern_isSome w.cursor (n / 2 ^ 64))
      rw [hp]
      exact ⟨rfl, id, fun _ => id, h _ rfl rfl⟩

theorem filled_checkPageIf {b : Bool} {pe : PageEntry} {Q : Nat → Lap → Prop} {x : Lap}
    (hbudget : 0 < x.budget) (h : ∀ errors, Q errors x ∧ Q errors x.tick) :
    (passContract fillPass).Follows Q (sat.checkPageIf b pe) x := by
  cases b with
  | false => exact (h 0).1
  | true =>
      apply pass_quiet hbudget
      · intro n w
        dsimp only
        split <;> rfl
      · intro n w
        dsimp only
        split <;> exact Iff.rfl
      · exact fun _ _ _ => (h _).2

/-- One pass of the loop of a `FillThread`. -/
theorem filled_fillThreadWork (hpreset : presetOnly = true → sat.fillPreset ≠ .none) {x : Lap}
    (hpage : x.page = none) (hfin : x.finished = false) (hbudget : 2 ≤ x.budget) :
    (passContract fillPass).Follows (Turn.Ends (FillLap presetOnly) FillEnd)
      (sat.fillThreadWork presetOnly x.left) x := by
  apply follows_bind (Q := fun ready x' => ready = true ∧ x' = x.tick)
  · apply pass_quiet (by omega) (fun _ _ => rfl) (fun _ _ => Iff.rfl)
    intro n w hrun
    have hstop : w.stop .fill = false := hrun rfl
    exact ⟨by simp [hstop], rfl⟩
  intro ready x₁ hx₁
  obtain ⟨rfl, rfl⟩ := hx₁
  refine follows_ite (fun hdone => ?_) fun hleft => ?_
  · have hzero : x.left = 0 := by simpa using hdone
    exact ⟨hpage, hzero⟩
  have hleft : 0 < x.left := by
    rw [Nat.pos_iff_ne_zero]
    simpa using hleft
  apply follows_bind (Q := onOption (fun pe x' => x' = x.tick.take fillPass pe) (· = x.tick.fail))
  · apply follows_bind (Q := onOption (fun pe x' => x' = x.tick.take fillPass pe) (· = x.tick.fail))
    · apply pass_get
      · refine ⟨hpage, hfin, fun _ => hleft, ?_⟩
        change 0 < x.budget - 1
        omega
      · exact fun pe _ => rfl
      · rfl
    · intro r x' hr
      cases r with
      | none => exact hr
      | some pe => exact hr
  intro r x₂ hx₂
  cases r with
  | none =>
      obtain rfl : x₂ = _ := hx₂
      exact ⟨hpage, rfl⟩
  | some pe =>
      obtain rfl : x₂ = _ := hx₂
      apply follows_bind (Q := fun r x' => r.2 = true ∧ r.1.offset = pe.offset ∧
        r.1.pattern.isSome ∧ x' = (x.tick.take fillPass pe).handle pe.offset)
      · exact filled_fillPageRandom hpreset rfl (Nat.succ_pos 7)
          fun pe' hoff hpattern => ⟨rfl, hoff, hpattern, rfl⟩
      intro filled x₃ hx₃
      obtain ⟨hok, hoff, hpattern, rfl⟩ := hx₃
      refine follows_ite (fun h => by simp [hok] at h) fun _ => ?_
      apply follows_bind (Q := fun _ x' => x'.page = some (pe.offset, true) ∧ 5 ≤ x'.budget ∧
        x'.finished = false ∧ x'.left = x.left - 1)
      · apply follows_bind (Q := fun _ x' => x' =
          ((x.tick.take fillPass pe).handle pe.offset).tick)
        · exact pass_quiet (Nat.succ_pos 6) (fun _ _ => rfl) (fun _ _ => Iff.rfl) fun _ _ _ => rfl
        · intro stop x₄ hx₄
          subst hx₄
          exact filled_checkPageIf (Nat.succ_pos 5) fun _ =>
            ⟨⟨rfl, Nat.le_succ 5, hfin, rfl⟩, ⟨rfl, Nat.le_refl 5, hfin, rfl⟩⟩
      intro errors x₅ hx₅
      obtain ⟨hpage₅, hbudget₅, hfin₅, hleft₅⟩ := hx₅
      apply follows_bind (Q := fun b x' => b = true ∧ x' = x₅.give)
      · refine pass_put (P := fillPass) ?_ (fun _ => hpattern) (by omega) ⟨rfl, rfl⟩
        rw [hpage₅]
        exact congrArg (fun o => some (o, true)) hoff.symm
      intro b x₆ hx₆
      obtain ⟨rfl, rfl⟩ := hx₆
      refine ⟨?_, rfl, hfin₅, ?_⟩
      · rw [show x₅.give.left = x.left - 1 from hleft₅]
      · change 3 ≤ x₅.budget - 1
        omega

/-- The loop of a fill pass keeps the contract of its pass. -/
def fillLoop (sat : Sat) (presetOnly : Bool) (hpreset : presetOnly = true → sat.fillPreset ≠ .none) :
    PassLoop sat fillPass where
  L := FillLap presetOnly
  X := FillEnd
  turn job x w h _ := by
    obtain ⟨rfl, hpage, hfin, hbudget⟩ := h
    refine ⟨x.tick, ⟨⟨id, fun _ => id⟩, .inl, ?_, rfl, rfl, .inl ⟨rfl, rfl⟩⟩, ?_⟩
    · exact Nat.sub_lt (by omega) Nat.one_pos
    · refine filled_fillThreadWork (x := x.tick) hpreset hpage hfin ?_
      change 2 ≤ x.budget - 1
      omega

end Sat

namespace FineLock

open FineLockPEQueue

section Fill

variable {τ : Type} [DecidableEq τ] [Fintype τ] {Q : FineLockPEQueue} {sat : Sat}
  {B : PassLoop sat fillPass} (S : Start Q B τ)

open Classical in
/-- A search has at most one page locked for a moment. -/
theorem transient_le_one (o : Op) :
    ∑ i ∈ Finset.range Q.qSize, (if Transient o i then 1 else 0) ≤ 1 := by
  by_cases h : ∃ j, Transient o j
  · obtain ⟨j, hj⟩ := h
    have hone : ∀ i, Transient o i → i = j := by
      intro i hi
      cases o with
      | recheck c k => exact (Eq.symm hi).trans hj
      | giveUp c k => exact (Eq.symm hi).trans hj
      | _ => exact hi.elim
    calc ∑ i ∈ Finset.range Q.qSize, (if Transient o i then 1 else 0)
        ≤ ∑ i ∈ Finset.range Q.qSize, (if i = j then 1 else 0) := by
          apply Finset.sum_le_sum
          intro i _
          by_cases hi : Transient o i
          · rw [if_pos hi, if_pos (hone i hi)]
          · rw [if_neg hi]
            exact Nat.zero_le _
      _ ≤ 1 := by
          rw [Finset.sum_ite_eq']
          split
          · exact le_rfl
          · exact Nat.zero_le 1
  · apply Nat.le_succ_of_le
    rw [Nat.le_zero]
    apply Finset.sum_eq_zero
    intro i _
    exact if_neg fun hi => h ⟨i, hi⟩

open Classical in
/-- **No search of a fill pass fails.** All empty pages that are not available are locked for a
moment by searches of other threads, each of which has a page of its quota to come. -/
theorem Start.search_succeeds (hC : Q.Covers) {s : Sys S.obj Ctl World}
    (h : Reachable S.obj S.program s) (t : τ) :
    s.obj.op t ≠ .done (.get .empty kDontCareTag) (.entry none) := by
  intro hop
  obtain ⟨a, ha⟩ := S.exists_describes h
  have hswept : Swept fillPass S.start a := ha.inv
  have hno := fun j (hj : j < Q.qSize) => unavailable_of_failed S.pageSize_pos hC S.fresh_of_eq
    (fun _ => S.oneWay) workersDiscipline h hop hj
  have hpool : a.obj = Q.toPool s.obj := ha.obj
  have hopA : ∀ t', a.obj.op t' = Q.poolOp s.obj.toPages (s.obj.op t') := fun t' => by
    rw [hpool]
    rfl
  let left (t' : τ) : Nat := ((a.ctl t').settled fillPass (a.obj.op t')).left
  have hquota : stock Q.qSize a.obj.slot .empty = ∑ t', left t' := hswept.quota rfl
  -- this thread has a page of its quota to come
  have hmine : 0 < left t := by
    have hdone : a.obj.op t = .done (.get .empty kDontCareTag) (.entry none) := by
      rw [hopA t, hop]
      rfl
    obtain ⟨-, -, -, -, hleft, -⟩ := hswept.held.asked t _ (by rw [hdone]; rfl)
    have hl : left t = (a.ctl t).left := by
      simp only [left, hdone]
      rfl
    rw [hl]
    exact hleft rfl
  -- and so has every thread whose search has locked a page
  have hother : ∀ t', (∑ i ∈ Finset.range Q.qSize, if Transient (s.obj.op t') i then 1 else 0) ≤
      left t' := by
    intro t'
    by_cases htr : ∃ i, Transient (s.obj.op t') i
    · obtain ⟨i, hi⟩ := htr
      have hbusy : ∃ kind tag, a.obj.op t' = .busy (.get kind tag) := by
        rw [hopA t']
        cases ho : s.obj.op t' with
        | recheck c k => exact ⟨_, _, rfl⟩
        | giveUp c k => exact ⟨_, _, rfl⟩
        | _ =>
            rw [ho] at hi
            exact hi.elim
      obtain ⟨kind, tag, hbusy⟩ := hbusy
      obtain ⟨-, -, -, -, hleft, -⟩ := hswept.held.asked t' _ (by rw [hbusy]; rfl)
      have hl : left t' = (a.ctl t').left := by
        simp only [left, hbusy]
        rfl
      rw [hl]
      exact (transient_le_one _).trans (hleft rfl)
    · rw [Finset.sum_eq_zero]
      · exact Nat.zero_le _
      · exact fun i _ => if_neg fun hi => htr ⟨i, hi⟩
  have hnone : (∑ i ∈ Finset.range Q.qSize, if Transient (s.obj.op t) i then 1 else 0) = 0 := by
    apply Finset.sum_eq_zero
    intro i _
    rw [hop]
    exact if_neg id
  -- an empty page in the pool is locked for a moment
  have hslot : ∀ i ∈ Finset.range Q.qSize, ofKind .empty (a.obj.slot i) ≤
      ∑ t', if Transient (s.obj.op t') i then 1 else 0 := by
    intro i hi
    unfold ofKind
    split
    · next hk =>
      rw [hpool] at hk
      simp only [FineLockPEQueue.toPool] at hk
      split at hk
      · next hfree =>
        have hkind : (s.obj.pages i).kind = .empty := by simpa using hk
        cases hfree.2 with
        | inl hlock =>
            exact absurd ⟨hlock, PageKind.holds_iff.mpr hkind, tagMatches_dontCare _⟩
              (hno i (Finset.mem_range.mp hi))
        | inr htr =>
            obtain ⟨t', ht'⟩ := htr
            calc 1 = if Transient (s.obj.op t') i then 1 else 0 := (if_pos ht').symm
              _ ≤ _ := Finset.single_le_sum (f := fun t' => if Transient (s.obj.op t') i then 1 else 0)
                (fun _ _ => Nat.zero_le _) (Finset.mem_univ t')
      · cases hk
    · exact Nat.zero_le _
  have hle : stock Q.qSize a.obj.slot .empty < ∑ t', left t' := by
    calc stock Q.qSize a.obj.slot .empty
        ≤ ∑ i ∈ Finset.range Q.qSize, ∑ t', (if Transient (s.obj.op t') i then 1 else 0) :=
          Finset.sum_le_sum hslot
      _ = ∑ t', ∑ i ∈ Finset.range Q.qSize, (if Transient (s.obj.op t') i then 1 else 0) :=
          Finset.sum_comm
      _ < ∑ t', left t' :=
          Finset.sum_lt_sum (fun t' _ => hother t') ⟨t, Finset.mem_univ t, by rw [hnone]; exact hmine⟩
  omega

/-- So no thread ever finishes for want of a page. -/
theorem Start.never_finished (hC : Q.Covers) {s : Sys S.obj Ctl World}
    (h : Reachable S.obj S.program s) :
    ∃ a, S.package.Describes (S.toPool s) a ∧ ∀ t, (a.ctl t).finished = false := by
  obtain ⟨s₀, h0, hrun⟩ := h
  induction hrun with
  | refl => exact ⟨_, S.describes_of_initial h0, S.finished⟩
  | @tail s s' hrun hstep ih =>
      obtain ⟨a, ha, hfin⟩ := ih
      have hreach : Reachable S.obj S.program s := ⟨s₀, h0, hrun⟩
      rcases S.toPool_step hreach hstep with hs | ⟨heq, -⟩
      · obtain ⟨a', hstep', ha'⟩ := Package.step ha hs
        refine ⟨a', ha', fun t => ?_⟩
        have hswept : Swept fillPass S.start a := ha.inv
        cases hc : (a'.ctl t).finished with
        | false => rfl
        | true =>
            rcases hswept.finished_cases hstep' hc with hold | hfailed
            · rw [hfin t] at hold
              cases hold
            · rw [ha.obj] at hfailed
              exact absurd (Start.poolOp_eq_failed hfailed) (S.search_succeeds hC hreach t)
      · exact ⟨a, heq ▸ ha, hfin⟩

end Fill

end FineLock

end StressAppTest
