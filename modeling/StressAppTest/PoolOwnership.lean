import StressAppTest.Pool
import StressAppTest.Library.Ownership

/-!
# Pages in hand, seen from the pool

A contract whose typestates name the pages in hand (`Handling`) makes every page be in the
pool or in the hands of exactly one thread. `PoolHeld` is this invariant of the abstract
system; the contracts of the workers add to it what they say about their pages.
-/

namespace StressAppTest

open Threads Ownership

/-- Typestates name the pages in hand, by index, and only these are put back. -/
structure Handling {S ω : Type} (pageLength : Nat) (K : Contract Request Response ω S) where
  hand : S → Multiset Nat
  owns : ∀ {s kind pe}, K.pre s (.put kind pe) → pe.offset / pageLength ∈ hand s
  got : ∀ {s kind tag pe s'}, K.pre s (.get kind tag) →
    K.post s (.get kind tag) (.entry (some pe)) s' → hand s' = pe.offset / pageLength ::ₘ hand s
  missed : ∀ {s kind tag s'}, K.post s (.get kind tag) (.entry none) s' → hand s' = hand s
  gave : ∀ {s kind pe s'}, K.pre s (.put kind pe) → K.post s (.put kind pe) (.status true) s' →
    hand s' = (hand s).erase (pe.offset / pageLength)
  kept : ∀ {s kind pe s'}, K.post s (.put kind pe) (.status false) s' → hand s' = hand s
  moved : ∀ {s w w' s'}, K.move s w w' s' → hand s' = hand s

section

variable {τ S ω : Type} [DecidableEq τ] {pages pageLength : Nat} {init : (Nat → Option Slot) → Prop}
  {K : Contract Request Response ω S} {env : ω → ω → Prop}

/-- The pages thread `t` has in hand, with the answer that is on its way to it. -/
def poolHand (H : Handling pageLength K) (s : Sys (poolObj pages pageLength τ init) S ω) (t : τ) :
    Multiset Nat := (s.obj.op t).inHand pageLength (H.hand (s.ctl t))

/-- Every page is in the pool or in the hands of exactly one thread. -/
structure PoolHeld (H : Handling pageLength K) (s : Sys (poolObj pages pageLength τ init) S ω) :
    Prop where
  inside : ∀ i x, s.obj.slot i = some x → i < pages
  asked : ∀ t r, (s.obj.op t).request = some r → K.pre (s.ctl t) r
  sound : ∀ t, (s.obj.op t).Sound pages pageLength
  exclusive : Exclusive (· < pages) (fun i => (s.obj.slot i).isNone) (poolHand H s)

variable {H : Handling pageLength K} {s s' : Sys (poolObj pages pageLength τ init) S ω}

/-- A page in hand is out of the pool. -/
theorem PoolHeld.slot_eq_none (h : PoolHeld H s) {t : τ} {i : Nat} (hi : i ∈ poolHand H s t) :
    s.obj.slot i = none := by
  simpa using h.exclusive.locked_of_mem hi

/-- A put under way works on a page in hand. -/
theorem PoolHeld.put_spec (h : PoolHeld H s) (hlen : 0 < pageLength) {t : τ} {kind : PageKind}
    {pe : PageEntry} {i : Nat} (hop : s.obj.op t = .busy (.put kind pe))
    (hoff : pe.offset = i * pageLength) :
    pe.offset / pageLength = i ∧ i ∈ poolHand H s t := by
  have hidx : pe.offset / pageLength = i := by
    rw [hoff]
    exact Nat.mul_div_cancel _ hlen
  refine ⟨hidx, ?_⟩
  have hown := H.owns (h.asked t (.put kind pe) (by rw [hop]; rfl))
  rw [hidx] at hown
  simpa [poolHand, hop, PoolOp.inHand] using hown

/-- A step of one thread keeps the invariant if it keeps that thread's part of it. -/
theorem PoolHeld.update (h : PoolHeld H s) {t : τ} {o : PoolOp} {x : S} {slot : Nat → Option Slot}
    {w : ω} (hin : ∀ i y, slot i = some y → i < pages)
    (hasked : ∀ r, o.request = some r → K.pre x r) (hsound : o.Sound pages pageLength)
    (hexcl : Exclusive (· < pages) (fun i => (slot i).isNone)
      (Function.update (poolHand H s) t (o.inHand pageLength (H.hand x)))) :
    PoolHeld H (⟨⟨slot, Function.update s.obj.op t o⟩, Function.update s.ctl t x, w⟩ :
      Sys (poolObj pages pageLength τ init) S ω) := by
  refine ⟨hin, ?_, ?_, ?_⟩
  · intro t'
    by_cases ht : t' = t
    · subst ht
      simpa using hasked
    · simpa [ht] using h.asked t'
  · intro t'
    by_cases ht : t' = t
    · subst ht
      simpa using hsound
    · simpa [ht] using h.sound t'
  · convert hexcl using 1
    ext t' : 1
    by_cases ht : t' = t
    · subst ht
      simp [poolHand]
    · simp [poolHand, ht]

/-- The same when the typestate stays. -/
theorem PoolHeld.update_op (h : PoolHeld H s) {t : τ} {o : PoolOp} {slot : Nat → Option Slot}
    (hin : ∀ i y, slot i = some y → i < pages)
    (hasked : ∀ r, o.request = some r → K.pre (s.ctl t) r) (hsound : o.Sound pages pageLength)
    (hexcl : Exclusive (· < pages) (fun i => (slot i).isNone)
      (Function.update (poolHand H s) t (o.inHand pageLength (H.hand (s.ctl t))))) :
    PoolHeld H (⟨⟨slot, Function.update s.obj.op t o⟩, s.ctl, s.world⟩ :
      Sys (poolObj pages pageLength τ init) S ω) := by
  have hupd := h.update (w := s.world) hin hasked hsound hexcl
  rwa [Function.update_eq_self] at hupd

theorem isNone_update (slot : Nat → Option Slot) (i : Nat) (x : Option Slot) :
    (fun j => (Function.update slot i x j).isNone) =
      Function.update (fun j => (slot j).isNone) i x.isNone := by
  ext j
  exact Function.apply_update (fun _ => Option.isNone) slot i x j

theorem PoolHeld.poolStep (h : PoolHeld H s) (hlen : 0 < pageLength) {t : τ} {o : PoolState τ}
    (hs : PoolStep pages pageLength s.obj t o) :
    PoolHeld H (⟨o, s.ctl, s.world⟩ : Sys (poolObj pages pageLength τ init) S ω) := by
  have hasked {r : Request} (hop : s.obj.op t = .busy r) (a : Response) :
      ∀ r', (PoolOp.done r a).request = some r' → K.pre (s.ctl t) r' := by
    intro r' hr
    obtain rfl := Option.some.inj hr
    exact h.asked t r (by rw [hop]; rfl)
  have hhand {r : Request} (hop : s.obj.op t = .busy r) : poolHand H s t = H.hand (s.ctl t) := by
    rw [poolHand, hop]
    rfl
  cases hs with
  | @found kind tag i pe hop hslot hoff =>
      have hi := h.inside i _ hslot
      have hidx : pe.offset / pageLength = i := by
        rw [hoff]
        exact Nat.mul_div_cancel _ hlen
      refine h.update_op (inside_update h.inside hi _) (hasked hop _) ⟨i, hi, hoff⟩ ?_
      simp only [PoolOp.inHand, hidx]
      rw [isNone_update, ← hhand hop]
      exact h.exclusive.acquire hi (by rw [hslot]; rfl)
  | missed hop =>
      refine h.update_op h.inside (hasked hop _) trivial ?_
      simp only [PoolOp.inHand]
      rw [← hhand hop, Function.update_eq_self]
      exact h.exclusive
  | @stored kind pe i pattern hop hi hoff hout hpattern =>
      obtain ⟨hidx, hmem⟩ := h.put_spec hlen hop hoff
      refine h.update_op (inside_update h.inside hi _) (hasked hop _) trivial ?_
      simp only [PoolOp.inHand, hidx]
      rw [isNone_update, ← hhand hop]
      exact h.exclusive.release hmem

/-- The answer of a call leaves the pages in hand as they are. -/
theorem PoolHeld.hand_post (h : PoolHeld H s) {t : τ} {r : Request} {a : Response} {x : S}
    (hop : s.obj.op t = .done r a) (hpost : K.post (s.ctl t) r a x) : H.hand x = poolHand H s t := by
  have hsound := h.sound t
  have hpre := h.asked t r (by rw [hop]; rfl)
  rw [hop] at hsound
  rw [poolHand, hop]
  cases r with
  | get kind tag =>
      cases a with
      | entry pe =>
          cases pe with
          | none => exact H.missed hpost
          | some pe => exact H.got hpre hpost
      | status ok => exact hsound.elim
  | put kind pe =>
      cases a with
      | entry pe' => exact hsound.elim
      | status ok =>
          cases ok with
          | true => exact H.gave hpre hpost
          | false => exact H.kept hpost

/-- **Every step keeps the invariant.** -/
theorem PoolHeld.step (h : PoolHeld H s) (hlen : 0 < pageLength) (hs : K.Step poolPending env s s') :
    PoolHeld H s' := by
  cases hs with
  | @call t r _ hpre ho =>
      obtain ⟨hidle, o, rfl, ho⟩ := ho
      have hhand : poolHand H s t = H.hand (s.ctl t) := by
        rw [poolHand, hidle]
        rfl
      have hnew : o.Sound pages pageLength ∧
          o.inHand pageLength (H.hand (s.ctl t)) = H.hand (s.ctl t) := by
        rcases called_cases ho with rfl | ⟨kind, tag, -, rfl⟩ | ⟨pe, -, hnone, rfl⟩
        · exact ⟨trivial, rfl⟩
        · exact ⟨trivial, rfl⟩
        · exact ⟨⟨rfl, hnone⟩, rfl⟩
      refine h.update_op h.inside (fun r' hr => ?_) hnew.1 ?_
      · obtain rfl := Option.some.inj ((request_of_called ho).symm.trans hr)
        exact hpre
      · rw [hnew.2, ← hhand, Function.update_eq_self]
        exact h.exclusive
  | obj ho => exact h.poolStep hlen ho
  | @ret t r a _ x hreq ho hpost =>
      obtain ⟨r', hdone, rfl⟩ := ho
      obtain rfl : r' = r := by simpa [poolPending, hdone, PoolOp.request] using hreq
      refine h.update h.inside (fun r hr => by cases hr) trivial ?_
      simp only [PoolOp.inHand]
      rw [h.hand_post hdone hpost, Function.update_eq_self]
      exact h.exclusive
  | @loc t w x hreq hview hmove =>
      have hidle : s.obj.op t = .idle := PoolOp.eq_idle_of_request hreq
      have hupd := h.update (t := t) (o := .idle) (x := x) (w := w) h.inside
        (fun r hr => by cases hr) trivial (by
          have hhand : poolHand H s t = H.hand (s.ctl t) := by
            rw [poolHand, hidle]
            rfl
          simp only [PoolOp.inHand]
          rw [H.moved hmove, ← hhand, Function.update_eq_self]
          exact h.exclusive)
      rwa [← hidle, Function.update_eq_self] at hupd
  | env hw => exact ⟨h.inside, h.asked, h.sound, h.exclusive⟩

/-- The invariant holds while all pages are in the pool. -/
theorem poolHeld_of_initial (hinit : ∀ i, (s.obj.slot i).isSome ↔ i < pages)
    (hidle : ∀ t, s.obj.op t = .idle) (hhand : ∀ t, H.hand (s.ctl t) = 0) : PoolHeld H s := by
  have hzero : ∀ t, poolHand H s t = 0 := by
    intro t
    rw [poolHand, hidle t, hhand t]
    rfl
  have hnot : ∀ t i, i ∉ poolHand H s t := by
    intro t i
    rw [hzero t]
    exact Multiset.notMem_zero i
  refine ⟨fun i x hx => ?_, fun t r hr => ?_, fun t => ?_, fun {t i} hi => absurd hi (hnot t i),
    fun t => ?_, fun {t t' i} hi => absurd hi (hnot t i), fun {i} hi => ?_⟩
  · rw [← hinit, hx]
    rfl
  · rw [hidle t] at hr
    cases hr
  · rw [hidle t]
    trivial
  · rw [hzero t]
    exact Multiset.nodup_zero
  · refine iff_of_false ?_ fun ⟨t, ht⟩ => hnot t i ht
    have hsome := (hinit i).mpr hi
    simp only [Bool.not_eq_true]
    rw [Option.isNone_eq_false_iff]
    exact hsome

end

end StressAppTest
