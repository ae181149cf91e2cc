import StressAppTest.FineLock.Ownership

/-!
# Searches under interleaving

A search looks at the pages one at a time, so it can miss a page that becomes available
behind it. This is the only way it can fail: an entry it has passed over (`PassedOver`) was
not available at that moment, and as long as no other thread makes such an entry available
again, none of them is (`Missed`). A search that fails has passed over every page.

* `Missed.microStep`: the searching thread's own steps never make an entry available.
* `exists_microStep`: a call never gets stuck, and each of its steps brings it closer to its
  answer (`stepsLeft`).
* `search_returns`: a search returns an entry if at every moment one is available and none it
  has passed over becomes available again.
-/

namespace StressAppTest.FineLock

open Threads

namespace FineLockPEQueue

/-! ## The trace of a search -/

/-- The local variables of a search are those of its pass. -/
def Traced (Q : FineLockPEQueue) : Op → Prop
  | .scan c => c.firstTry < Q.qSize ∧ c.i ≤ Q.qSize ∧ Q.tryAt c.i = some c.nextTry
  | .testTag c j | .tryLock c j | .recheck c j | .giveUp c j | .copyOut c j =>
    c.firstTry < Q.qSize ∧ c.i < Q.qSize ∧ Q.tryAt (c.i + 1) = some c.nextTry ∧
      ∃ x, Q.tryAt c.i = some x ∧ Q.index c.firstTry x = j
  | _ => True

/-- The pages a search has passed over: those of its completed passes. -/
def PassedOver (Q : FineLockPEQueue) (o : Op) (j : Nat) : Prop :=
  match o with
  | .scan c | .testTag c _ | .tryLock c _ | .recheck c _ | .giveUp c _ | .copyOut c _ =>
    ∃ i < c.i, ∃ x, Q.tryAt i = some x ∧ Q.index c.firstTry x = j
  | .done (.get _ _) (.entry none) => j < Q.qSize
  | _ => False

/-- No page passed over is available. -/
def Missed (Q : FineLockPEQueue) (p : Pages) (kind : PageKind) (tag : Word32) (o : Op) : Prop :=
  ∀ j, Q.PassedOver o j → ¬ p.Available kind tag j

theorem traced_enter (Q : FineLockPEQueue) (random64 : Nat) (r : Request) :
    Q.Traced (Q.enter random64 r) := by
  rcases r with ⟨kind, tag⟩ | ⟨kind, pe⟩
  · simp only [enter]
    split
    · trivial
    · next h => exact ⟨Nat.mod_lt _ (by omega), Nat.zero_le _, rfl⟩
  · simp only [enter]
    split
    · trivial
    · split <;> trivial

theorem Traced.microStep {Q : FineLockPEQueue} {p p' : Pages} {o o' : Op} (h : Q.Traced o)
    (hm : MicroStep Q p o p' o') : Q.Traced o' := by
  have hnext {i x nextTry : Nat} (htry : Q.tryAt i = some x)
      (hadv : Q.advance x = some nextTry) : Q.tryAt (i + 1) = some nextTry := by
    rw [Path.tryAt, htry, Option.bind_some, hadv]
  cases hm with
  | skip hlt hadv hno => exact ⟨h.1, hlt, hnext h.2.2 hadv⟩
  | look hlt hadv htag => exact ⟨h.1, hlt, hnext h.2.2 hadv, _, h.2.2, rfl⟩
  | lookTag hlt hadv => exact ⟨h.1, hlt, hnext h.2.2 hadv, _, h.2.2, rfl⟩
  | tagHit => exact h
  | tagMiss hno => exact ⟨h.1, h.2.1, h.2.2.1⟩
  | busy hl => exact ⟨h.1, h.2.1, h.2.2.1⟩
  | lock hl => exact h
  | confirm hk => exact h
  | refute hk => exact h
  | giveUp => exact ⟨h.1, h.2.1, h.2.2.1⟩
  | _ => trivial

/-- A pass that ends at an unavailable page leaves no available page behind. -/
theorem Missed.next {Q : FineLockPEQueue} {p : Pages} {c : Scan} {j : Nat}
    (htr : Q.Traced (.tryLock c j)) (h : Q.Missed p c.kind c.tag (.tryLock c j))
    (hj : ¬ p.Available c.kind c.tag j) : Q.Missed p c.kind c.tag (.scan c.next) := by
  rintro j' ⟨i, hi, x, hx, rfl⟩
  obtain ⟨-, -, -, y, hy, rfl⟩ := htr
  have hi' : i < c.i + 1 := hi
  rcases Nat.lt_or_eq_of_le (Nat.le_of_lt_succ hi') with hlt | heq
  · exact h _ ⟨i, hlt, x, hx, rfl⟩
  · subst heq
    obtain rfl : x = y := Option.some.inj (hx.symm.trans hy)
    exact hj

/-- The searching thread's own steps keep `Missed`: it takes only locks of available pages,
and what it unlocks again is of the other kind. -/
theorem Missed.microStep {Q : FineLockPEQueue} (hC : Q.Covers) {p p' : Pages} {o o' : Op}
    {kind : PageKind} {tag : Word32} (htr : Q.Traced o) (hs : Q.OpSound p o)
    (hreq : o.request = some (.get kind tag)) (h : Q.Missed p kind tag o)
    (hm : MicroStep Q p o p' o') : Q.Missed p' kind tag o' := by
  have hreq' {c : Scan} (hc : some (Request.get c.kind c.tag) = some (.get kind tag)) :
      c.kind = kind ∧ c.tag = tag := by simpa using hc
  have htr' := htr.microStep hm
  cases hm with
  | @skip c nextTry hlt hadv hno =>
      obtain ⟨rfl, rfl⟩ := hreq' hreq
      have hpass : Q.Traced (.tryLock { c with nextTry := nextTry }
          (Q.index c.firstTry c.nextTry)) := ⟨htr.1, hlt, htr'.2.2, c.nextTry, htr.2.2, rfl⟩
      exact Missed.next (c := { c with nextTry := nextTry }) hpass h fun hav => hno hav.2.1
  | look hlt hadv htag => exact h
  | lookTag hlt hadv => exact h
  | @exhausted c hge =>
      -- the passes have covered all pages
      intro j hj
      obtain ⟨i, hi, x, hx, rfl⟩ := hC.surj c.firstTry htr.1 j hj
      exact h _ ⟨i, by omega, x, hx, rfl⟩
  | tagHit => exact h
  | tagMiss hno =>
      obtain ⟨rfl, rfl⟩ := hreq' hreq
      exact Missed.next htr h fun hav => hno hav.2.2
  | busy hl =>
      obtain ⟨rfl, rfl⟩ := hreq' hreq
      refine Missed.next htr h fun hav => ?_
      rw [hav.1] at hl
      exact absurd hl (by decide)
  | @lock c j hl =>
      intro j' hj' hav
      refine h j' hj' ⟨?_, hav.2⟩
      have hlock := hav.1
      simp only [Pages.setLock] at hlock
      by_cases hjj : j' = j
      · subst hjj
        simp at hlock
      · simpa [hjj] using hlock
  | confirm hk => exact h
  | refute hk => exact h
  | @giveUp c j =>
      obtain ⟨rfl, rfl⟩ := hreq' hreq
      have hj : ¬ (p.setLock j false).Available c.kind c.tag j := fun hav => by
        have hk : c.kind.holds (p.pages j) = true := hav.2.1
        rw [hs.2] at hk
        exact absurd hk (by decide)
      refine Missed.next htr (fun j' hj' hav => ?_) hj
      by_cases hjj : j' = j
      · exact hj (hjj ▸ hav)
      · refine h j' hj' ⟨?_, hav.2⟩
        simpa [Pages.setLock, hjj] using hav.1
  | copyOut => exact fun j' hj' => hj'.elim
  | _ => exact absurd hreq (by simp [Op.request])

theorem request_enter (Q : FineLockPEQueue) (random64 : Nat) (r : Request) :
    (Q.enter random64 r).request = some r := by
  cases r with
  | get kind tag =>
      rw [enter]
      split <;> rfl
  | put kind pe =>
      rw [enter]
      split
      · rfl
      · split <;> rfl

/-- A search that has just begun has passed over nothing. -/
theorem missed_enter (Q : FineLockPEQueue) (p : Pages) (kind : PageKind) (tag : Word32)
    (random64 : Nat) : Q.Missed p kind tag (Q.enter random64 (.get kind tag)) := by
  intro j hj
  rw [enter] at hj
  split at hj
  · next hzero =>
    have hlt : j < Q.qSize := hj
    omega
  · obtain ⟨i, hi, -⟩ := hj
    exact absurd hi (Nat.not_lt_zero i)

/-! ## Calls come to an end -/

/-- A bound on the steps a call takes before its answer. -/
def stepsLeft (Q : FineLockPEQueue) : Op → Nat
  | .scan c => 6 * (Q.qSize - c.i) + 1
  | .testTag c _ => 6 * (Q.qSize - c.i)
  | .tryLock c _ => 6 * (Q.qSize - c.i) - 1
  | .recheck c _ => 6 * (Q.qSize - c.i) - 2
  | .giveUp c _ | .copyOut c _ => 6 * (Q.qSize - c.i) - 3
  | .copyIn _ _ _ => 3
  | .clear _ _ => 2
  | .unlock _ _ _ => 1
  | .idle | .done _ _ => 0

/-- A call that has no answer yet can take a step, and every step brings it closer. -/
theorem exists_microStep {Q : FineLockPEQueue} (hC : Q.Covers) {o : Op} (htr : Q.Traced o)
    (hidle : o ≠ .idle) (hdone : ∀ r a, o ≠ .done r a) (p : Pages) :
    ∃ p' o', Q.microStep p o = some (p', o') := by
  cases o with
  | scan c =>
      simp only [FineLockPEQueue.microStep]
      split
      · next hlt =>
        obtain ⟨nextTry, hnext⟩ := hC.defined (c.i + 1) hlt
        rw [Path.tryAt, htr.2.2, Option.bind_some] at hnext
        rw [hnext]
        exact ⟨_, _, rfl⟩
      · exact ⟨_, _, rfl⟩
  | idle => exact absurd rfl hidle
  | done r a => exact absurd rfl (hdone r a)
  | _ => exact ⟨_, _, rfl⟩

theorem stepsLeft_lt {Q : FineLockPEQueue} {p p' : Pages} {o o' : Op} (htr : Q.Traced o)
    (hm : MicroStep Q p o p' o') : Q.stepsLeft o' < Q.stepsLeft o := by
  cases hm with
  | tagHit | tagMiss | busy | lock | confirm | refute | giveUp | copyOut =>
      have hi := htr.2.1
      simp only [stepsLeft, Scan.next]
      omega
  | _ =>
      simp only [stepsLeft]
      omega

end FineLockPEQueue

/-! ## Searches in a run -/

section Runs

variable {τ κ ω : Type} [DecidableEq τ] {C : Program τ κ ω} {Q : FineLockPEQueue}
  {init : Pages → Prop}

theorem traced_of_reachable {s : Sys (Q.obj τ init) κ ω} (h : Reachable (Q.obj τ init) C s) :
    ∀ t, Q.Traced (s.obj.op t) := by
  have hone {op : τ → Op} {t : τ} {o : Op} (hop : ∀ t, Q.Traced (op t)) (ho : Q.Traced o) (t' : τ) :
      Q.Traced (Function.update op t o t') := by
    by_cases ht : t' = t
    · subst ht
      simpa using ho
    · simpa [ht] using hop t'
  refine h.inv (I := fun (s : Sys (Q.obj τ init) κ ω) => ∀ t, Q.Traced (s.obj.op t)) ?_ ?_
  · intro s hs t
    rw [hs.1.2 t]
    trivial
  · intro s s' hs hstep
    cases hstep with
    | call hcall h =>
        obtain ⟨-, random64, -, rfl⟩ := h
        exact hone hs (Q.traced_enter random64 _)
    | obj h =>
        obtain ⟨p, o, hm, rfl⟩ := h
        exact hone hs ((hs _).microStep (FineLockPEQueue.microStep_cases hm))
    | ret h =>
        obtain ⟨r, -, rfl⟩ := h
        exact hone hs trivial
    | loc hcall h => exact hs
    | env h => exact hs

/-- No entry that the search of thread `t` has passed over becomes available. -/
def NothingBehind (t : τ) (kind : PageKind) (tag : Word32) (s s' : Sys (Q.obj τ init) κ ω) : Prop :=
  ∀ j, Q.PassedOver (s.obj.op t) j → ¬ s.obj.toPages.Available kind tag j →
    ¬ s'.obj.toPages.Available kind tag j

/-- A step of another thread leaves `t` where it is; a step of `t` itself inside the queue is
a step of its search. Either way `Missed` is kept. -/
theorem Missed.step {D : Discipline C} (hC : Q.Covers) {s s' : Sys (Q.obj τ init) κ ω}
    (howned : Owned D s) (htr : ∀ t, Q.Traced (s.obj.op t)) {t : τ} {kind : PageKind} {tag : Word32}
    (hreq : (s.obj.op t).request = some (.get kind tag)) (hstep : Step (Q.obj τ init) C s s')
    (hbehind : NothingBehind t kind tag s s')
    (hm : Q.Missed s.obj.toPages kind tag (s.obj.op t)) :
    Q.Missed s'.obj.toPages kind tag (s'.obj.op t) := by
  have hframe (heq : s'.obj.op t = s.obj.op t) :
      Q.Missed s'.obj.toPages kind tag (s'.obj.op t) := by
    rw [heq]
    exact fun j hj => hbehind j hj (hm j hj)
  cases hstep with
  | @call t' _ _ hcall h =>
      obtain ⟨hidle, random64, -, rfl⟩ := h
      by_cases ht : t = t'
      · subst ht
        exact absurd hreq (by simp [hidle, Op.request])
      · exact hframe (by simp [ht])
  | @obj t' _ h =>
      obtain ⟨p, o, hmicro, rfl⟩ := h
      by_cases ht : t = t'
      · subst ht
        simpa using hm.microStep hC (htr t) (howned.sound t) hreq
          (FineLockPEQueue.microStep_cases hmicro)
      · exact hframe (by simp [ht])
  | @ret t' _ _ h =>
      obtain ⟨r, hdone, rfl⟩ := h
      by_cases ht : t = t'
      · subst ht
        intro j hj
        simp [FineLockPEQueue.PassedOver] at hj
      · exact hframe (by simp [ht])
  | loc hcall h => exact hframe rfl
  | env h => exact hframe rfl

/-- `Missed` after a step, whether the call was under way before it or begins with it. -/
theorem Missed.of_step {D : Discipline C} (hC : Q.Covers) {s s' : Sys (Q.obj τ init) κ ω}
    (howned : Owned D s) (htr : ∀ t, Q.Traced (s.obj.op t)) {t : τ} {kind : PageKind} {tag : Word32}
    (hstep : Step (Q.obj τ init) C s s') (hreq : (s'.obj.op t).request = some (.get kind tag))
    (hbefore : (s.obj.op t).request = some (.get kind tag) →
      NothingBehind t kind tag s s' ∧ Q.Missed s.obj.toPages kind tag (s.obj.op t)) :
    Q.Missed s'.obj.toPages kind tag (s'.obj.op t) := by
  by_cases hold : (s.obj.op t).request = some (.get kind tag)
  · obtain ⟨hbehind, hm⟩ := hbefore hold
    exact Missed.step hC howned htr hold hstep hbehind hm
  · cases hstep with
    | @call t' r _ hcall ho =>
        obtain ⟨hidle, random64, -, rfl⟩ := ho
        by_cases ht : t = t'
        · subst ht
          have henter : (Q.enter random64 r).request = some (.get kind tag) := by simpa using hreq
          rw [Q.request_enter] at henter
          obtain rfl := Option.some.inj henter
          simpa using Q.missed_enter s.obj.toPages kind tag random64
        · exact absurd (by simpa [ht] using hreq) hold
    | @obj t' _ ho =>
        obtain ⟨p, o, hm, rfl⟩ := ho
        by_cases ht : t = t'
        · subst ht
          exact absurd (by simpa [(FineLockPEQueue.microStep_cases hm).request_eq] using hreq) hold
        · exact absurd (by simpa [ht] using hreq) hold
    | @ret t' _ _ ho =>
        obtain ⟨r, -, rfl⟩ := ho
        by_cases ht : t = t'
        · subst ht
          simp [Op.request] at hreq
        · exact absurd (by simpa [ht] using hreq) hold
    | loc _ _ => exact absurd hreq hold
    | env _ => exact absurd hreq hold

/-- The states of a call of thread `t` for a page of the given kind, from its entry on, in a
run that keeps some such page unlocked at every moment of the call and whose steps during the
call all satisfy `ok`. -/
inductive Watched (C : Program τ κ ω) (t : τ) (kind : PageKind)
    (ok : Sys (Q.obj τ init) κ ω → Sys (Q.obj τ init) κ ω → Prop) : Sys (Q.obj τ init) κ ω → Prop
  | enter {s : Sys (Q.obj τ init) κ ω} (hreach : Reachable (Q.obj τ init) C s) {random64 : Nat}
      (hop : s.obj.op t = Q.enter random64 (.get kind kDontCareTag))
      (hav : ∃ j < Q.qSize, s.obj.toPages.Unlocked kind j) : Watched C t kind ok s
  | next {s s' : Sys (Q.obj τ init) κ ω} (h : Watched C t kind ok s)
      (hstep : Step (Q.obj τ init) C s s') (hin : s'.obj.op t ≠ .idle) (hok : ok s s')
      (hav : ∃ j < Q.qSize, s'.obj.toPages.Unlocked kind j) : Watched C t kind ok s'

theorem Pages.available_iff_unlocked {p : Pages} {kind : PageKind} {j : Nat} :
    p.Available kind kDontCareTag j ↔ p.Unlocked kind j := by
  simp [Pages.Available, Pages.Unlocked]

theorem Watched.reachable {t : τ} {kind : PageKind}
    {ok : Sys (Q.obj τ init) κ ω → Sys (Q.obj τ init) κ ω → Prop} {s : Sys (Q.obj τ init) κ ω}
    (h : Watched C t kind ok s) : Reachable (Q.obj τ init) C s := by
  induction h with
  | enter hreach _ _ => exact hreach
  | next _ hstep _ _ _ ih => exact ih.step hstep

theorem Watched.exists_unlocked {t : τ} {kind : PageKind}
    {ok : Sys (Q.obj τ init) κ ω → Sys (Q.obj τ init) κ ω → Prop} {s : Sys (Q.obj τ init) κ ω}
    (h : Watched C t kind ok s) : ∃ j < Q.qSize, s.obj.toPages.Unlocked kind j := by
  cases h with
  | enter _ _ hav => exact hav
  | next _ _ _ _ hav => exact hav

/-- The thread stays in its call. -/
theorem Watched.request {t : τ} {kind : PageKind}
    {ok : Sys (Q.obj τ init) κ ω → Sys (Q.obj τ init) κ ω → Prop} {s : Sys (Q.obj τ init) κ ω}
    (h : Watched C t kind ok s) : (s.obj.op t).request = some (.get kind kDontCareTag) := by
  induction h with
  | enter _ hop _ =>
      rw [hop, FineLockPEQueue.enter]
      split <;> rfl
  | @next s s' _ hstep hin _ _ ih =>
      cases hstep with
      | @call t' _ _ _ h =>
          obtain ⟨hidle, random64, -, rfl⟩ := h
          by_cases ht : t = t'
          · subst ht
            exact absurd ih (by simp [hidle, Op.request])
          · simpa [ht] using ih
      | @obj t' _ h =>
          obtain ⟨p, o, hm, rfl⟩ := h
          by_cases ht : t = t'
          · subst ht
            simpa [(FineLockPEQueue.microStep_cases hm).request_eq] using ih
          · simpa [ht] using ih
      | @ret t' _ _ h =>
          obtain ⟨r, -, rfl⟩ := h
          by_cases ht : t = t'
          · subst ht
            exact absurd (by simp) hin
          · simpa [ht] using ih
      | loc _ _ => exact ih
      | env _ => exact ih

/-- **A search returns.** In a run in which a page of the kind is unlocked at every moment of
the call and no page the search has passed over becomes available behind it, the search either
has its entry or can take its next step, which brings it closer to its end. -/
theorem search_returns {D : Discipline C} (hps : 0 < Q.pageSize) (hC : Q.Covers)
    (hfresh : ∀ p, init p → Fresh Q p) {t : τ} {kind : PageKind} {s : Sys (Q.obj τ init) κ ω}
    (h : Watched C t kind (NothingBehind t kind kDontCareTag) s) :
    (∃ pe, s.obj.op t = .done (.get kind kDontCareTag) (.entry (some pe))) ∨
      ∃ p o, Q.microStep s.obj.toPages (s.obj.op t) = some (p, o) ∧
        Q.stepsLeft o < Q.stepsLeft (s.obj.op t) := by
  have htr := traced_of_reachable h.reachable
  have hreq := h.request
  have hmissed : Q.Missed s.obj.toPages kind kDontCareTag (s.obj.op t) := by
    clear htr hreq
    induction h with
    | enter _ hop hav =>
        obtain ⟨j, hj, -⟩ := hav
        rw [hop, FineLockPEQueue.enter, if_neg (by omega)]
        rintro j' ⟨i, hi, -⟩
        exact absurd hi (Nat.not_lt_zero i)
    | next hw hstep _ hok _ ih =>
        exact Missed.step hC (owned_of_reachable D hps hfresh hw.reachable)
          (traced_of_reachable hw.reachable) hw.request hstep hok ih
  by_cases hdone : ∃ r a, s.obj.op t = .done r a
  · obtain ⟨r, a, ho⟩ := hdone
    have hsound := (owned_of_reachable D hps hfresh h.reachable).sound t
    rw [ho] at hreq hsound hmissed
    obtain rfl : r = .get kind kDontCareTag := by simpa [Op.request] using hreq
    rcases a with (_ | pe) | ok
    · -- a failed search has passed over every page, the unlocked one too
      obtain ⟨j, hj, hun⟩ := h.exists_unlocked
      exact absurd (Pages.available_iff_unlocked.mpr hun) (hmissed j hj)
    · exact .inl ⟨pe, ho⟩
    · exact hsound.elim
  · obtain ⟨p, o, hm⟩ := FineLockPEQueue.exists_microStep hC (htr t)
      (fun hidle => by simp [hidle, Op.request] at hreq) (fun r a ho => hdone ⟨r, a, ho⟩)
      s.obj.toPages
    exact .inr ⟨p, o, hm,
      FineLockPEQueue.stepsLeft_lt (htr t) (FineLockPEQueue.microStep_cases hm)⟩

end Runs

end StressAppTest.FineLock
