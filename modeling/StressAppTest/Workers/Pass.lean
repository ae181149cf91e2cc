import StressAppTest.PoolOwnership
import StressAppTest.PoolStock
import StressAppTest.Workers.Program

/-!
# Passes over the pages

A fill pass and a final check have one shape: the workers take pages of one kind, hand each to
one page function, and put it back as the other kind. `passContract` is the rule of such a
worker and `Swept` what follows for the pool: every page that was of the kind is handed to the
page function at most once, and exactly once when it has come back; no other page ever is.

`effort` bounds the steps of the workers outside the queue: every local step and every answer
uses some of it up.
-/

namespace StressAppTest

open Threads Work Contract

def PageKind.other : PageKind → PageKind
  | .valid => .empty
  | .empty => .valid

theorem PageKind.other_ne (kind : PageKind) : kind.other ≠ kind := by
  cases kind <;> simp [other]

/-- What a pass is about: the kind of page it takes, the log of its page function, the worlds
in which the workers go on, the steps a worker takes with one page, and whether the pages are
shared out among the workers beforehand. If they are, nobody stops the workers. -/
structure Pass where
  kind : PageKind
  log : World → List Nat
  running : World → Prop
  lap : Nat
  shared : Bool

/-- Where a worker of a pass stands: the offset of the page in hand and whether the page
function has had it, whether a search has failed, whether it was told to stop, the pages still
to take, and the steps left. -/
structure Lap where
  page : Option (Nat × Bool)
  finished : Bool
  halted : Bool
  left : Nat
  budget : Nat

/-- The rule of a worker of a pass. -/
def passContract (P : Pass) : Contract Request Response World Lap where
  pre x
    | .get kind tag => kind = P.kind ∧ tag = kDontCareTag ∧ x.page = none ∧ x.finished = false ∧
        (P.shared = true → 0 < x.left) ∧ 0 < x.budget
    | .put kind pe => kind = P.kind.other ∧ x.page = some (pe.offset, true) ∧
        (kind = .valid → pe.pattern.isSome) ∧ 0 < x.budget
  post x r a x' :=
    match r, a with
    | .get _ _, .entry (some pe) => (P.kind = .valid → pe.pattern.isSome) ∧
        x' = { x with page := some (pe.offset, false), left := x.left - 1, budget := P.lap }
    | .get _ _, .entry none => x' = { x with finished := true, budget := x.budget - 1 }
    | .put _ _, .status true => x' = { x with page := none, budget := x.budget - 1 }
    | _, _ => False
  view _ w := P.shared = true → P.running w
  move x w w' x' := ((P.running w' → P.running w) ∧ (P.shared = true → P.running w → P.running w')) ∧
    (x'.halted = true → x.halted = true ∨ ¬ P.running w) ∧ x'.budget < x.budget ∧
    x'.finished = x.finished ∧ x'.left = x.left ∧
    ((x'.page = x.page ∧ P.log w' = P.log w) ∨
      ∃ o, x.page = some (o, false) ∧ x'.page = some (o, true) ∧ P.log w' = o :: P.log w)

/-- The page in hand, by index. -/
def Lap.hand (pageLength : Nat) (x : Lap) : Multiset Nat :=
  match x.page with
  | none => 0
  | some (o, _) => {o / pageLength}

def passHandling (pageLength : Nat) (P : Pass) : Handling pageLength (passContract P) where
  hand := Lap.hand pageLength
  owns {x kind pe} h := by
    obtain ⟨-, hpage, -⟩ := h
    simp [Lap.hand, hpage]
  got {x kind tag pe x'} hpre h := by
    obtain ⟨-, -, hpage, -⟩ := hpre
    obtain ⟨-, rfl⟩ := h
    simp [Lap.hand, hpage]
  missed {x kind tag x'} h := by
    obtain rfl : x' = _ := h
    rfl
  gave {x kind pe x'} hpre h := by
    obtain ⟨-, hpage, -⟩ := hpre
    obtain rfl : x' = _ := h
    simp [Lap.hand, hpage]
  kept h := h.elim
  moved {x w w' x'} h := by
    obtain ⟨-, -, -, -, -, hpage⟩ := h
    rcases hpage with ⟨hpage, -⟩ | ⟨o, hpage, hpage', -⟩
    · simp [Lap.hand, hpage]
    · simp [Lap.hand, hpage, hpage']

/-! ## The invariant -/

/-- Where a worker stands once the answer that is on its way has reached it. -/
def Lap.settled (P : Pass) : PoolOp → Lap → Lap
  | .done (.get _ _) (.entry (some pe)), x =>
    { x with page := some (pe.offset, false), left := x.left - 1, budget := P.lap }
  | .done (.get _ _) (.entry none), x => { x with finished := true, budget := x.budget - 1 }
  | .done (.put _ _) (.status true), x => { x with page := none, budget := x.budget - 1 }
  | _, x => x

@[simp] theorem Lap.halted_settled (P : Pass) (o : PoolOp) (x : Lap) :
    (x.settled P o).halted = x.halted := by
  unfold Lap.settled
  split <;> rfl

section Swept

variable {τ : Type} [DecidableEq τ] [Fintype τ] {pages pageLength : Nat}
  {init : (Nat → Option Slot) → Prop} {P : Pass} {start : Nat → Prop}

/-- What holds in a pass over the pages in `start`. -/
structure Swept (P : Pass) (start : Nat → Prop) (s : Sys (poolObj pages pageLength τ init) Lap World) :
    Prop where
  held : PoolHeld (passHandling pageLength P) s
  running : P.shared = true → P.running s.world
  halted : ∀ t, (s.ctl t).halted = true → ¬ P.running s.world
  answered : ∀ t r a, s.obj.op t = .done r a →
    (passContract P).post (s.ctl t) r a ((s.ctl t).settled P (s.obj.op t))
  labelled : ∀ i p, s.obj.slot i = some (.valid, p) → p.isSome
  nodup : (P.log s.world).Nodup
  logged : ∀ o ∈ P.log s.world, ∃ i < pages, start i ∧ o = i * pageLength
  waiting : ∀ i p, s.obj.slot i = some (P.kind, p) → start i ∧ i * pageLength ∉ P.log s.world
  done : ∀ i p, s.obj.slot i = some (P.kind.other, p) → start i → i * pageLength ∈ P.log s.world
  inHand : ∀ t o b, ((s.ctl t).settled P (s.obj.op t)).page = some (o, b) →
    (∃ i < pages, start i ∧ o = i * pageLength) ∧ (b = true ↔ o ∈ P.log s.world)
  quota : P.shared = true → stock pages s.obj.slot P.kind =
    ∑ t, ((s.ctl t).settled P (s.obj.op t)).left

variable {s s' : Sys (poolObj pages pageLength τ init) Lap World}

/-- The page of a worker is in its hands. -/
theorem Swept.mem_poolHand (h : Swept P start s) {t : τ} {o : Nat} {b : Bool}
    (hpage : ((s.ctl t).settled P (s.obj.op t)).page = some (o, b)) :
    o / pageLength ∈ poolHand (passHandling pageLength P) s t := by
  unfold poolHand
  cases hop : s.obj.op t with
  | idle =>
      rw [hop] at hpage
      simp [PoolOp.inHand, passHandling, Lap.hand, show (s.ctl t).page = some (o, b) from hpage]
  | busy r =>
      rw [hop] at hpage
      simp [PoolOp.inHand, passHandling, Lap.hand, show (s.ctl t).page = some (o, b) from hpage]
  | done r a =>
      have hsound := h.held.sound t
      have hpost := h.answered t r a hop
      rw [hop] at hpage hsound hpost
      cases r with
      | get kind tag =>
          cases a with
          | status ok => exact hsound.elim
          | entry pe =>
              cases pe with
              | none =>
                  simp [PoolOp.inHand, passHandling, Lap.hand,
                    show (s.ctl t).page = some (o, b) from hpage]
              | some pe =>
                  obtain ⟨rfl, -⟩ := Prod.mk.inj (Option.some.inj hpage)
                  simp [PoolOp.inHand]
      | put kind pe =>
          cases a with
          | entry pe' => exact hsound.elim
          | status ok =>
              cases ok with
              | true => cases hpage
              | false => exact hpost.elim

/-- No two workers have the same page, and a page in hand is not in the pool. -/
theorem Swept.slot_eq_none (h : Swept P start s) (hlen : 0 < pageLength) {t : τ} {i : Nat} {b : Bool}
    (hpage : ((s.ctl t).settled P (s.obj.op t)).page = some (i * pageLength, b)) :
    s.obj.slot i = none := by
  have hmem := h.mem_poolHand hpage
  rw [Nat.mul_div_cancel _ hlen] at hmem
  exact h.held.slot_eq_none hmem

theorem Swept.owner_unique (h : Swept P start s) {t t' : τ} {o : Nat} {b b' : Bool}
    (hpage : ((s.ctl t).settled P (s.obj.op t)).page = some (o, b))
    (hpage' : ((s.ctl t').settled P (s.obj.op t')).page = some (o, b')) : t = t' :=
  h.held.exclusive.owner_unique (h.mem_poolHand hpage) (h.mem_poolHand hpage')

/-- A step that changes neither the pool nor the log nor what the workers will have. -/
theorem Swept.of_same (h : Swept P start s) (hheld : PoolHeld (passHandling pageLength P) s')
    (hans : ∀ t r a, s'.obj.op t = .done r a →
      (passContract P).post (s'.ctl t) r a ((s'.ctl t).settled P (s'.obj.op t)))
    (hslot : s'.obj.slot = s.obj.slot) (hworld : s'.world = s.world)
    (hhalted : ∀ t, (s'.ctl t).halted = (s.ctl t).halted)
    (hpage : ∀ t, ((s'.ctl t).settled P (s'.obj.op t)).page = ((s.ctl t).settled P (s.obj.op t)).page)
    (hleft : ∀ t, ((s'.ctl t).settled P (s'.obj.op t)).left = ((s.ctl t).settled P (s.obj.op t)).left) :
    Swept P start s' where
  held := hheld
  running := hworld ▸ h.running
  halted := by
    intro t ht
    rw [hworld]
    exact h.halted t (hhalted t ▸ ht)
  answered := hans
  labelled := hslot ▸ h.labelled
  nodup := hworld ▸ h.nodup
  logged := hworld ▸ h.logged
  waiting := by
    rw [hslot, hworld]
    exact h.waiting
  done := by
    rw [hslot, hworld]
    exact h.done
  inHand := by
    intro t o b ho
    rw [hpage t] at ho
    rw [hworld]
    exact h.inHand t o b ho
  quota hshared := by
    rw [hslot, h.quota hshared]
    exact Finset.sum_congr rfl fun t _ => (hleft t).symm

omit [Fintype τ] in
theorem answered_update {op : τ → PoolOp} {ctl : τ → Lap} {t : τ} {o : PoolOp}
    (h : ∀ t r a, op t = .done r a → (passContract P).post (ctl t) r a ((ctl t).settled P (op t)))
    (ho : ∀ r a, o = .done r a → (passContract P).post (ctl t) r a ((ctl t).settled P o)) :
    ∀ t' r a, Function.update op t o t' = .done r a →
      (passContract P).post (ctl t') r a ((ctl t').settled P (Function.update op t o t')) := by
  intro t'
  by_cases ht : t' = t
  · subst ht
    simpa using ho
  · simpa [ht] using h t'

theorem Swept.found (h : Swept P start s) {t : τ} {kind : PageKind}
    {tag : Word32} {i : Nat} {pe : PageEntry} (hop : s.obj.op t = .busy (.get kind tag))
    (hslot : s.obj.slot i = some (kind, pe.pattern)) (hoff : pe.offset = i * pageLength)
    (hheld : PoolHeld (passHandling pageLength P) (⟨⟨Function.update s.obj.slot i none,
      Function.update s.obj.op t (.done (.get kind tag) (.entry (some pe)))⟩, s.ctl, s.world⟩ :
        Sys (poolObj pages pageLength τ init) Lap World)) :
    Swept P start (⟨⟨Function.update s.obj.slot i none,
      Function.update s.obj.op t (.done (.get kind tag) (.entry (some pe)))⟩, s.ctl, s.world⟩ :
        Sys (poolObj pages pageLength τ init) Lap World) := by
  obtain ⟨rfl, rfl, -, -, hleft, -⟩ := h.held.asked t (.get kind tag) (by rw [hop]; rfl)
  have hsettled : (s.ctl t).settled P (s.obj.op t) = s.ctl t := by
    rw [hop]
    rfl
  have hi := h.held.inside i _ hslot
  have hwait := h.waiting i _ hslot
  refine ⟨hheld, h.running, h.halted, answered_update h.answered ?_,
    fun j p hp => h.labelled j p (slot_of_take hp), h.nodup, h.logged,
    fun j p hp => h.waiting j p (slot_of_take hp), fun j p hp => h.done j p (slot_of_take hp),
    ?_, fun hshared => ?_⟩
  · intro r a ho
    obtain ⟨rfl, rfl⟩ := PoolOp.done.inj ho
    refine ⟨fun hk => h.labelled i _ ?_, rfl⟩
    rw [hslot, hk]
  · intro t' o b ho
    by_cases ht : t' = t
    · subst ht
      simp only [Function.update_self, Lap.settled] at ho
      obtain ⟨rfl, rfl⟩ := Prod.mk.inj (Option.some.inj ho)
      refine ⟨⟨i, hi, hwait.1, hoff⟩, iff_of_false (by decide) ?_⟩
      rw [hoff]
      exact hwait.2
    · exact h.inHand t' o b (by simpa [ht] using ho)
  · have hsum := sum_threads (fun o x => (x.settled P o).left) s.obj.op s.ctl t
      (.done (.get P.kind kDontCareTag) (.entry (some pe))) (s.ctl t)
    have hstock := stock_take hi hslot P.kind
    have hquota := h.quota hshared
    have hpos := hleft hshared
    rw [if_pos rfl] at hstock
    rw [Function.update_eq_self, hsettled] at hsum
    have hnew : ((s.ctl t).settled P (.done (.get P.kind kDontCareTag) (.entry (some pe)))).left =
        (s.ctl t).left - 1 := rfl
    dsimp only
    omega

theorem Swept.stored (h : Swept P start s) {t : τ} {kind : PageKind}
    {pe : PageEntry} {i : Nat} {pattern : Option Pattern} (hop : s.obj.op t = .busy (.put kind pe))
    (hi : i < pages) (hoff : pe.offset = i * pageLength) (hout : s.obj.slot i = none)
    (hpattern : kind = .valid → pattern = pe.pattern)
    (hheld : PoolHeld (passHandling pageLength P) (⟨⟨Function.update s.obj.slot i (some (kind, pattern)),
      Function.update s.obj.op t (.done (.put kind pe) (.status true))⟩, s.ctl, s.world⟩ :
        Sys (poolObj pages pageLength τ init) Lap World)) :
    Swept P start (⟨⟨Function.update s.obj.slot i (some (kind, pattern)),
      Function.update s.obj.op t (.done (.put kind pe) (.status true))⟩, s.ctl, s.world⟩ :
        Sys (poolObj pages pageLength τ init) Lap World) := by
  obtain ⟨rfl, hpage, hlabel, -⟩ := h.held.asked t (.put kind pe) (by rw [hop]; rfl)
  have hsettled : (s.ctl t).settled P (s.obj.op t) = s.ctl t := by
    rw [hop]
    rfl
  have hlog : i * pageLength ∈ P.log s.world := by
    have hhand := h.inHand t pe.offset true (by rw [hop]; exact hpage)
    rw [← hoff]
    exact hhand.2.mp rfl
  refine ⟨hheld, h.running, h.halted, answered_update h.answered ?_, ?_, h.nodup, h.logged, ?_, ?_, ?_,
    fun hshared => ?_⟩
  · intro r a ho
    obtain ⟨rfl, rfl⟩ := PoolOp.done.inj ho
    exact rfl
  · exact labelled_give h.labelled fun hk => hpattern hk ▸ hlabel hk
  · intro j p hp
    rcases slot_of_give hp with ⟨-, hk⟩ | hold
    · exact absurd (Prod.mk.inj hk).1 P.kind.other_ne
    · exact h.waiting j p hold
  · intro j p hp hstart
    rcases slot_of_give hp with ⟨rfl, -⟩ | hold
    · exact hlog
    · exact h.done j p hold hstart
  · intro t' o b ho
    by_cases ht : t' = t
    · subst ht
      simp only [Function.update_self, Lap.settled] at ho
      cases ho
    · exact h.inHand t' o b (by simpa [ht] using ho)
  · have hsum := sum_threads (fun o x => (x.settled P o).left) s.obj.op s.ctl t
      (.done (.put P.kind.other pe) (.status true)) (s.ctl t)
    have hstock := stock_give hi hout P.kind.other pattern P.kind
    have hquota := h.quota hshared
    rw [if_neg P.kind.other_ne.symm] at hstock
    rw [Function.update_eq_self, hsettled] at hsum
    have hnew : ((s.ctl t).settled P (.done (.put P.kind.other pe) (.status true))).left =
        (s.ctl t).left := rfl
    dsimp only
    omega

/-- A local step, which may hand the page in hand to the page function. -/
theorem Swept.moved (h : Swept P start s) (hlen : 0 < pageLength) {t : τ} {w : World} {x : Lap}
    (hidle : s.obj.op t = .idle) (hmove : (passContract P).move (s.ctl t) s.world w x)
    (hheld : PoolHeld (passHandling pageLength P) (⟨s.obj, Function.update s.ctl t x, w⟩ :
      Sys (poolObj pages pageLength τ init) Lap World)) :
    Swept P start (⟨s.obj, Function.update s.ctl t x, w⟩ :
      Sys (poolObj pages pageLength τ init) Lap World) := by
  obtain ⟨⟨hback, hrun⟩, hhalt, -, -, hleft, hpage⟩ := hmove
  have hx : x.settled P (s.obj.op t) = x := by
    rw [hidle]
    rfl
  have hxt : (s.ctl t).settled P (s.obj.op t) = s.ctl t := by
    rw [hidle]
    rfl
  have hans : ∀ t' r a, s.obj.op t' = .done r a → (passContract P).post (Function.update s.ctl t x t')
      r a ((Function.update s.ctl t x t').settled P (s.obj.op t')) := by
    intro t' r a ho
    by_cases ht : t' = t
    · subst ht
      rw [hidle] at ho
      cases ho
    · simpa [ht] using h.answered t' r a ho
  have hquota : P.shared = true → stock pages s.obj.slot P.kind =
      ∑ t', ((Function.update s.ctl t x t').settled P (s.obj.op t')).left := by
    intro hshared
    have hsum := sum_threads (fun o x => (x.settled P o).left) s.obj.op s.ctl t (s.obj.op t) x
    have hold := h.quota hshared
    rw [Function.update_eq_self, hx, hxt] at hsum
    omega
  have hrunning : P.shared = true → P.running w := fun hshared => hrun hshared (h.running hshared)
  have hhalted : ∀ t', (Function.update s.ctl t x t').halted = true → ¬ P.running w := by
    intro t' ht' hw
    have hold := hback hw
    by_cases ht : t' = t
    · subst ht
      rw [Function.update_self] at ht'
      cases hhalt ht' with
      | inl hbefore => exact h.halted t' hbefore hold
      | inr hstopped => exact hstopped hold
    · rw [Function.update_of_ne ht] at ht'
      exact h.halted t' ht' hold
  rcases hpage with ⟨hpage, hlog⟩ | ⟨o, hpage, hpage', hlog⟩
  · refine ⟨hheld, hrunning, hhalted, hans, h.labelled, hlog ▸ h.nodup, hlog ▸ h.logged, ?_, ?_, ?_, hquota⟩
    · rw [hlog]
      exact h.waiting
    · rw [hlog]
      exact h.done
    · intro t' o b ho
      dsimp only at ho
      rw [hlog]
      by_cases ht : t' = t
      · subst ht
        rw [Function.update_self, hx, hpage] at ho
        exact h.inHand t' o b (by rw [hxt]; exact ho)
      · rw [Function.update_of_ne ht] at ho
        exact h.inHand t' o b ho
  · -- the page of `t` joins the log
    have hmine : ((s.ctl t).settled P (s.obj.op t)).page = some (o, false) := by rw [hxt, hpage]
    obtain ⟨⟨i, hi, hstart, rfl⟩, hnot⟩ := h.inHand t o false hmine
    have hfresh : i * pageLength ∉ P.log s.world := fun hmem => by simpa using hnot.mpr hmem
    have hout := h.slot_eq_none hlen hmine
    have hne {j : Nat} {y : Slot} (hy : s.obj.slot j = some y) : j * pageLength ≠ i * pageLength := by
      intro heq
      obtain rfl := Nat.eq_of_mul_eq_mul_right hlen heq
      rw [hout] at hy
      cases hy
    refine ⟨hheld, hrunning, hhalted, hans, h.labelled, ?_, ?_, ?_, ?_, ?_, hquota⟩
    · rw [hlog]
      exact List.nodup_cons.mpr ⟨hfresh, h.nodup⟩
    · rw [hlog]
      intro o ho
      cases List.mem_cons.mp ho with
      | inl heq => exact ⟨i, hi, hstart, heq⟩
      | inr ho => exact h.logged o ho
    · intro j p hp
      obtain ⟨hs, hj⟩ := h.waiting j p hp
      refine ⟨hs, ?_⟩
      dsimp only
      rw [hlog, List.mem_cons]
      exact fun hc => hc.elim (hne hp) hj
    · intro j p hp hs
      dsimp only
      rw [hlog]
      exact List.mem_cons_of_mem _ (h.done j p hp hs)
    · intro t' o' b ho
      dsimp only at ho ⊢
      rw [hlog]
      by_cases ht : t' = t
      · subst ht
        rw [Function.update_self, hx, hpage'] at ho
        obtain ⟨rfl, rfl⟩ := Prod.mk.inj (Option.some.inj ho)
        exact ⟨⟨i, hi, hstart, rfl⟩, iff_of_true rfl List.mem_cons_self⟩
      · rw [Function.update_of_ne ht] at ho
        obtain ⟨hpos, hiff⟩ := h.inHand t' o' b ho
        refine ⟨hpos, hiff.trans ?_⟩
        rw [List.mem_cons]
        refine (or_iff_right ?_).symm
        rintro rfl
        exact ht (h.owner_unique ho hmine)

/-- A step of a call that changes neither the pool nor what its worker will have. -/
theorem Swept.same_op (h : Swept P start s) {t : τ} {o : PoolOp}
    (hheld : PoolHeld (passHandling pageLength P) (⟨{ s.obj with op := Function.update s.obj.op t o }, s.ctl, s.world⟩ :
      Sys (poolObj pages pageLength τ init) Lap World))
    (hans : ∀ r a, o = .done r a → (passContract P).post (s.ctl t) r a ((s.ctl t).settled P o))
    (hpage : ((s.ctl t).settled P o).page = ((s.ctl t).settled P (s.obj.op t)).page)
    (hleft : ((s.ctl t).settled P o).left = ((s.ctl t).settled P (s.obj.op t)).left) :
    Swept P start (⟨{ s.obj with op := Function.update s.obj.op t o }, s.ctl, s.world⟩ :
      Sys (poolObj pages pageLength τ init) Lap World) := by
  refine h.of_same hheld (answered_update h.answered hans) rfl rfl (fun _ => rfl) ?_ ?_
  · intro t'
    by_cases ht : t' = t
    · subst ht
      simpa using hpage
    · simp [ht]
  · intro t'
    by_cases ht : t' = t
    · subst ht
      simpa using hleft
    · simp [ht]

/-- A request is accepted; a put is not turned down. -/
theorem Swept.called (h : Swept P start s) {t : τ} {r : Request} {o : PoolOp}
    (hidle : s.obj.op t = .idle) (hpre : (passContract P).pre (s.ctl t) r)
    (ho : o = .busy r ∨ ∃ a, Refused r a ∧ o = .done r a)
    (hheld : PoolHeld (passHandling pageLength P) (⟨{ s.obj with op := Function.update s.obj.op t o }, s.ctl, s.world⟩ :
      Sys (poolObj pages pageLength τ init) Lap World)) :
    Swept P start (⟨{ s.obj with op := Function.update s.obj.op t o }, s.ctl, s.world⟩ :
      Sys (poolObj pages pageLength τ init) Lap World) := by
  have hxt : (s.ctl t).settled P (s.obj.op t) = s.ctl t := by
    rw [hidle]
    rfl
  rcases called_cases ho with rfl | ⟨kind, tag, rfl, rfl⟩ | ⟨pe, rfl, hnone, -⟩
  · exact h.same_op hheld (fun r' a hc => by cases hc) (by rw [hxt]; rfl) (by rw [hxt]; rfl)
  · refine h.same_op hheld (fun r' a' hc => ?_) (by rw [hxt]; rfl) (by rw [hxt]; rfl)
    obtain ⟨rfl, rfl⟩ := PoolOp.done.inj hc
    exact rfl
  · have hsome := hpre.2.2.1 rfl
    rw [hnone] at hsome
    cases hsome

/-- A search has found nothing. -/
theorem Swept.missed (h : Swept P start s) {t : τ} {kind : PageKind} {tag : Word32}
    (hop : s.obj.op t = .busy (.get kind tag))
    (hheld : PoolHeld (passHandling pageLength P) (⟨{ s.obj with
      op := Function.update s.obj.op t (.done (.get kind tag) (.entry none)) }, s.ctl, s.world⟩ :
      Sys (poolObj pages pageLength τ init) Lap World)) :
    Swept P start (⟨{ s.obj with op := Function.update s.obj.op t (.done (.get kind tag) (.entry none)) },
      s.ctl, s.world⟩ : Sys (poolObj pages pageLength τ init) Lap World) := by
  have hxt : (s.ctl t).settled P (s.obj.op t) = s.ctl t := by
    rw [hop]
    rfl
  refine h.same_op hheld (fun r a ho => ?_) (by rw [hxt]; rfl) (by rw [hxt]; rfl)
  obtain ⟨rfl, rfl⟩ := PoolOp.done.inj ho
  exact rfl

/-- The worker has the answer, and is what it was expected to become. -/
theorem Swept.returned (h : Swept P start s) {t : τ} {r : Request} {a : Response} {x : Lap}
    (hdone : s.obj.op t = .done r a) (hpost : (passContract P).post (s.ctl t) r a x)
    (hheld : PoolHeld (passHandling pageLength P) (⟨{ s.obj with op := Function.update s.obj.op t .idle },
      Function.update s.ctl t x, s.world⟩ : Sys (poolObj pages pageLength τ init) Lap World)) :
    Swept P start (⟨{ s.obj with op := Function.update s.obj.op t .idle }, Function.update s.ctl t x,
      s.world⟩ : Sys (poolObj pages pageLength τ init) Lap World) := by
  have hx : x = (s.ctl t).settled P (s.obj.op t) := by
    have hsound := h.held.sound t
    rw [hdone] at hsound ⊢
    cases r with
    | get kind tag =>
        cases a with
        | status ok => exact hsound.elim
        | entry pe =>
            cases pe with
            | none => exact hpost
            | some pe => exact hpost.2
    | put kind pe =>
        cases a with
        | entry pe' => exact hsound.elim
        | status ok =>
            cases ok with
            | true => exact hpost
            | false => exact hpost.elim
  have hsame : ∀ t', (Function.update s.ctl t x t').settled P
      (Function.update s.obj.op t .idle t') = (s.ctl t').settled P (s.obj.op t') := by
    intro t'
    by_cases ht : t' = t
    · subst ht
      rw [Function.update_self, Function.update_self, ← hx]
      rfl
    · simp [ht]
  have hhalted : ∀ t', (Function.update s.ctl t x t').halted = (s.ctl t').halted := by
    intro t'
    by_cases ht : t' = t
    · subst ht
      rw [Function.update_self, hx, Lap.halted_settled]
    · rw [Function.update_of_ne ht]
  refine h.of_same hheld ?_ rfl rfl hhalted (fun t' => congrArg Lap.page (hsame t'))
    fun t' => congrArg Lap.left (hsame t')
  intro t' r' a' ho
  by_cases ht : t' = t
  · subst ht
    simp at ho
  · simp only [Function.update_of_ne ht] at ho ⊢
    exact h.answered t' r' a' ho

/-- **Every step keeps the invariant.** -/
theorem Swept.step (h : Swept P start s) (hlen : 0 < pageLength)
    (hs : (passContract P).Step poolPending (fun _ _ => False) s s') : Swept P start s' := by
  have hheld := h.held.step hlen hs
  cases hs with
  | call hpre ho =>
      obtain ⟨hidle, o, rfl, ho⟩ := ho
      exact h.called hidle hpre ho hheld
  | obj ho =>
      cases ho with
      | found hop hslot hoff => exact h.found hop hslot hoff hheld
      | missed hop => exact h.missed hop hheld
      | stored hop hi hoff hout hpattern => exact h.stored hop hi hoff hout hpattern hheld
  | @ret t r a _ x hreq ho hpost =>
      obtain ⟨r', hdone, rfl⟩ := ho
      obtain rfl : r' = r := by simpa [poolPending, hdone, PoolOp.request] using hreq
      exact h.returned hdone hpost hheld
  | loc hreq _ hmove => exact h.moved hlen (PoolOp.eq_idle_of_request hreq) hmove hheld
  | env hw => exact hw.elim

/-! ## The steps left -/

/-- The steps a worker may still take outside the queue, with a share for its calls. -/
def Lap.weight (P : Pass) : PoolOp → Lap → Nat
  | .idle, x => 3 * x.budget + 2
  | .busy _, x => 3 * x.budget + 1
  | .done (.get _ _) (.entry (some _)), _ => 3 * (P.lap + 1)
  | .done _ _, x => 3 * x.budget

/-- The steps all workers may still take: each page that waits is worth one lap. -/
def effort (P : Pass) (s : Sys (poolObj pages pageLength τ init) Lap World) : Nat :=
  3 * (P.lap + 1) * stock pages s.obj.slot P.kind + ∑ t, (s.ctl t).weight P (s.obj.op t)

/-- An answer uses up the share of its call, or turns the page of a lap into the calls of it. -/
theorem Swept.weight_ret (h : Swept P start s) {t : τ} {r : Request} {a : Response} {x : Lap}
    (hdone : s.obj.op t = .done r a) (hpost : (passContract P).post (s.ctl t) r a x) :
    x.weight P .idle < (s.ctl t).weight P (s.obj.op t) := by
  have hpre := h.held.asked t r (by rw [hdone]; rfl)
  have hsound := h.held.sound t
  rw [hdone] at hsound ⊢
  cases r with
  | get kind tag =>
      cases a with
      | status ok => exact hsound.elim
      | entry pe =>
          cases pe with
          | none =>
              obtain ⟨-, -, -, -, -, hbudget⟩ := hpre
              obtain rfl : x = _ := hpost
              change 3 * ((s.ctl t).budget - 1) + 2 < 3 * (s.ctl t).budget
              omega
          | some pe =>
              obtain ⟨-, rfl⟩ := hpost
              change 3 * P.lap + 2 < 3 * (P.lap + 1)
              omega
  | put kind pe =>
      obtain ⟨-, -, -, hbudget⟩ := hpre
      cases a with
      | entry pe' => exact hsound.elim
      | status ok =>
          cases ok with
          | true =>
              obtain rfl : x = _ := hpost
              change 3 * ((s.ctl t).budget - 1) + 2 < 3 * (s.ctl t).budget
              omega
          | false => exact hpost.elim

/-- **Every step uses up effort.** -/
theorem Swept.effort_lt (h : Swept P start s)
    (hs : (passContract P).Step poolPending (fun _ _ => False) s s') : effort P s' < effort P s := by
  have hsum := fun t o x => sum_threads (Lap.weight P) s.obj.op s.ctl t o x
  unfold effort
  cases hs with
  | @call t r _ hpre ho =>
      obtain ⟨hidle, o, rfl, ho⟩ := ho
      have hnew : (s.ctl t).weight P o < (s.ctl t).weight P (s.obj.op t) := by
        rw [hidle]
        rcases called_cases ho with rfl | ⟨kind, tag, -, rfl⟩ | ⟨pe, -, -, rfl⟩
        · exact Nat.lt_succ_self _
        · exact Nat.lt_add_of_pos_right (by decide)
        · exact Nat.lt_add_of_pos_right (by decide)
      have hs := hsum t o (s.ctl t)
      rw [Function.update_eq_self] at hs
      dsimp only
      omega
  | @obj t _ ho =>
      cases ho with
      | @found kind tag i pe hop hslot hoff =>
          obtain ⟨rfl, -⟩ := h.held.asked t (.get kind tag) (by rw [hop]; rfl)
          have hs := hsum t (.done (.get P.kind tag) (.entry (some pe))) (s.ctl t)
          have hstock := stock_take (h.held.inside i _ hslot) hslot P.kind
          rw [if_pos rfl] at hstock
          rw [Function.update_eq_self, hop] at hs
          have hold : (s.ctl t).weight P (.busy (.get P.kind tag)) = 3 * (s.ctl t).budget + 1 := rfl
          have hnew : (s.ctl t).weight P (.done (.get P.kind tag) (.entry (some pe))) =
            3 * (P.lap + 1) := rfl
          have hprod : 3 * (P.lap + 1) * stock pages s.obj.slot P.kind =
              3 * (P.lap + 1) * stock pages (Function.update s.obj.slot i none) P.kind +
                3 * (P.lap + 1) := by
            rw [← Nat.mul_succ, Nat.succ_eq_add_one, hstock]
          dsimp only
          rw [hprod]
          omega
      | @missed kind tag hop =>
          have hs := hsum t (.done (.get kind tag) (.entry none)) (s.ctl t)
          rw [Function.update_eq_self, hop] at hs
          have hold : (s.ctl t).weight P (.busy (.get kind tag)) = 3 * (s.ctl t).budget + 1 := rfl
          have hnew : (s.ctl t).weight P (.done (.get kind tag) (.entry none)) =
            3 * (s.ctl t).budget := rfl
          dsimp only
          omega
      | @stored kind pe i pattern hop hi hoff hout hpattern =>
          obtain ⟨rfl, -⟩ := h.held.asked t (.put kind pe) (by rw [hop]; rfl)
          have hs := hsum t (.done (.put P.kind.other pe) (.status true)) (s.ctl t)
          have hstock := stock_give hi hout P.kind.other pattern P.kind
          rw [if_neg P.kind.other_ne.symm, Nat.add_zero] at hstock
          rw [Function.update_eq_self, hop] at hs
          have hold : (s.ctl t).weight P (.busy (.put P.kind.other pe)) =
            3 * (s.ctl t).budget + 1 := rfl
          have hnew : (s.ctl t).weight P (.done (.put P.kind.other pe) (.status true)) =
            3 * (s.ctl t).budget := rfl
          dsimp only
          rw [hstock]
          omega
  | @ret t r a _ x hreq ho hpost =>
      obtain ⟨r', hdone, rfl⟩ := ho
      obtain rfl : r' = r := by simpa [poolPending, hdone, PoolOp.request] using hreq
      have hnew := h.weight_ret hdone hpost
      have hs := hsum t .idle x
      dsimp only
      omega
  | @loc t w x hreq hview hmove =>
      have hidle : s.obj.op t = .idle := PoolOp.eq_idle_of_request hreq
      obtain ⟨-, -, hbudget, -⟩ := hmove
      have hs := hsum t (s.obj.op t) x
      rw [Function.update_eq_self, hidle] at hs
      have hold : (s.ctl t).weight P .idle = 3 * (s.ctl t).budget + 2 := rfl
      have hnew : x.weight P .idle = 3 * x.budget + 2 := rfl
      dsimp only
      omega
  | env hw => exact hw.elim

/-- A worker finishes when a search has failed. -/
theorem Swept.finished_cases (h : Swept P start s)
    (hs : (passContract P).Step poolPending (fun _ _ => False) s s') {t : τ}
    (hfin : (s'.ctl t).finished = true) :
    (s.ctl t).finished = true ∨ s.obj.op t = .done (.get P.kind kDontCareTag) (.entry none) := by
  cases hs with
  | call _ _ => exact .inl hfin
  | obj _ => exact .inl hfin
  | @ret t' r a _ x hreq ho hpost =>
      obtain ⟨r', hdone, rfl⟩ := ho
      obtain rfl : r' = r := by simpa [poolPending, hdone, PoolOp.request] using hreq
      by_cases ht : t = t'
      · subst ht
        simp only [Function.update_self] at hfin
        have hpre := h.held.asked t r' (by rw [hdone]; rfl)
        have hsound := h.held.sound t
        rw [hdone] at hsound
        cases r' with
        | get kind tag =>
            obtain ⟨rfl, rfl, -⟩ := hpre
            cases a with
            | status ok => exact hsound.elim
            | entry pe =>
                cases pe with
                | none => exact .inr hdone
                | some pe =>
                    obtain ⟨-, rfl⟩ := hpost
                    exact .inl hfin
        | put kind pe =>
            cases a with
            | entry pe' => exact hsound.elim
            | status ok =>
                cases ok with
                | true =>
                    obtain rfl : x = _ := hpost
                    exact .inl hfin
                | false => exact hpost.elim
      · exact .inl (by simpa [ht] using hfin)
  | @loc t' w x hreq hview hmove =>
      by_cases ht : t = t'
      · subst ht
        obtain ⟨-, -, -, hsame, -⟩ := hmove
        simp only [Function.update_self] at hfin
        exact .inl (hsame ▸ hfin)
      · exact .inl (by simpa [ht] using hfin)
  | env hw => exact hw.elim

end Swept

/-! ## Rules for the operations -/

/-- After a step that does nothing for the pass. -/
def Lap.tick (x : Lap) : Lap := { x with budget := x.budget - 1 }

/-- With a page just taken. -/
def Lap.take (P : Pass) (x : Lap) (pe : PageEntry) : Lap :=
  { x with page := some (pe.offset, false), left := x.left - 1, budget := P.lap }

/-- After a failed search. -/
def Lap.fail (x : Lap) : Lap := { x with finished := true, budget := x.budget - 1 }

/-- The page function has had the page in hand. -/
def Lap.handle (x : Lap) (o : Nat) : Lap := { x with page := some (o, true), budget := x.budget - 1 }

/-- The page in hand is back. -/
def Lap.give (x : Lap) : Lap := { x with page := none, budget := x.budget - 1 }

section Rules

variable {β : Type} {P : Pass} {Q : β → Lap → Prop} {x : Lap}

theorem pass_quiet {f : Nat → World → World × β} (hbudget : 0 < x.budget)
    (hlog : ∀ n w, P.log (f n w).1 = P.log w) (hrun : ∀ n w, P.running (f n w).1 ↔ P.running w)
    (h : ∀ n w, (P.shared = true → P.running w) → Q (f n w).2 x.tick) :
    (passContract P).Follows Q (act f) x := by
  refine follows_act fun n w hview => ⟨x.tick, ⟨⟨(hrun n w).mp, fun _ => (hrun n w).mpr⟩, .inl, ?_,
    rfl, rfl, .inl ⟨rfl, hlog n w⟩⟩, h n w hview⟩
  exact Nat.sub_lt hbudget Nat.one_pos

theorem pass_get {Q : Option PageEntry → Lap → Prop}
    (hx : x.page = none ∧ x.finished = false ∧ (P.shared = true → 0 < x.left) ∧ 0 < x.budget)
    (hsome : ∀ pe : PageEntry, (P.kind = .valid → pe.pattern.isSome) → Q (some pe) (x.take P pe))
    (hnone : Q none x.fail) : (passContract P).Follows Q (get P.kind kDontCareTag) x := by
  refine ⟨⟨rfl, rfl, hx⟩, fun a x' hpost => ?_⟩
  cases a with
  | entry pe =>
      cases pe with
      | none =>
          obtain rfl : x' = _ := hpost
          exact hnone
      | some pe =>
          obtain ⟨hpe, rfl⟩ := hpost
          exact hsome pe hpe
  | status ok => exact hpost.elim

theorem pass_put {Q : Bool → Lap → Prop} {pe : PageEntry} (hpage : x.page = some (pe.offset, true))
    (hpe : P.kind.other = .valid → pe.pattern.isSome) (hbudget : 0 < x.budget) (h : Q true x.give) :
    (passContract P).Follows Q (put P.kind.other pe) x := by
  refine ⟨⟨rfl, hpage, hpe, hbudget⟩, fun a x' hpost => ?_⟩
  cases a with
  | entry pe' => exact hpost.elim
  | status ok =>
      cases ok with
      | true =>
          obtain rfl : x' = _ := hpost
          exact h
      | false => exact hpost.elim

/-- The page function takes the page in hand. -/
theorem pass_handle {f : Nat → World → World × β} {o : Nat} (hpage : x.page = some (o, false))
    (hbudget : 0 < x.budget)
    (h : ∀ n w, P.log (f n w).1 = o :: P.log w ∧ (P.running (f n w).1 → P.running w) ∧
      (P.shared = true → P.running w → P.running (f n w).1) ∧ Q (f n w).2 (x.handle o)) :
    (passContract P).Follows Q (act f) x := by
  refine follows_act fun n w _ => ?_
  obtain ⟨hlog, hback, hrun, hQ⟩ := h n w
  refine ⟨x.handle o, ⟨⟨hback, hrun⟩, .inl, ?_, rfl, rfl, .inr ⟨o, hpage, rfl, hlog⟩⟩, hQ⟩
  exact Nat.sub_lt hbudget Nat.one_pos

end Rules

/-! ## The loops of a pass -/

/-- The loops of the workers keep the contract of the pass. -/
structure PassLoop (sat : Sat) (P : Pass) where
  L : Job → Lap → Prop
  X : Bool → Lap → Prop
  turn : ∀ job x w, L job x → (P.shared = true → P.running w) → ∃ x', (passContract P).move x w w x' ∧
    (passContract P).Follows (Turn.Ends L X) (sat.body job) x'

/-- The contract, the loops and the invariant together. -/
def PassLoop.package {τ : Type} [DecidableEq τ] [Fintype τ] {sat : Sat} {P : Pass}
    (B : PassLoop sat P) {pages pageLength : Nat} {init : (Nat → Option Slot) → Prop}
    (hlen : 0 < pageLength) (start : Nat → Prop) (jobs : τ → Job) (W : World → Prop) :
    Package (poolObj pages pageLength τ init) (workers sat jobs W (fun _ _ => False)) sat.body Lap where
  runs := workersRuns
  pending := poolPending
  contract := passContract P
  L := B.L
  X := B.X
  I := Swept P start
  turn := B.turn
  view h _ _ := h.running
  answered {s t r a o} h hreq ho := by
    obtain ⟨r', hdone, -⟩ := ho
    obtain rfl : r' = r := by simpa [poolPending, hdone, PoolOp.request] using hreq
    exact ⟨_, h.answered t _ _ hdone⟩
  keeps h hs := h.step hlen hs

end StressAppTest
