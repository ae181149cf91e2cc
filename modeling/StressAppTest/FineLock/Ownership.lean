import StressAppTest.Library.Ownership
import StressAppTest.FineLock.Interleaving

/-!
# Ownership of pages

For any number of disciplined workers and any interleaving of their steps, a page lock is
taken exactly when one thread has the page in hand: in the entries its program has obtained,
in a put that has not unlocked yet, or in a get between its `trylock` and its answer
(`holding`). `Owned` is the invariant; everything the other modules need to know about the
queue under interleaving is read off it.

* `owned_of_reachable`: `Owned` holds in every reachable state.
* `page_ownership`: from the first loop of `InitializePages` on, each page is unlocked and
  valid, unlocked and empty, or held by exactly one worker.
-/

namespace StressAppTest.FineLock

open Threads Ownership

/-! ## The first loop of `InitializePages` -/

/-- The entry the first loop of `InitializePages` registers for page `i`. What `init_pe` does
not set is whatever the stack held. -/
def firstEntry (Q : FineLockPEQueue) (raw : PageEntry) (i : Nat) : PageEntry :=
  { raw.initPe with offset := i * Q.pageSize }

/-- The first loop of `InitializePages`: all pages are put as empty. -/
def firstLoop (Q : FineLockPEQueue) (raw : Nat → PageEntry) (s : Pages) : Bool × Pages :=
  forUpTo Q.qSize (fun i r =>
    let put := Q.putEmpty (firstEntry Q (raw i) i) r.2
    (r.1 && put.1, put.2)) (true, s)

/-- The arrays after the constructor and a successful first loop. -/
def AfterFirstLoop (Q : FineLockPEQueue) (p : Pages) : Prop :=
  ∃ raw pages, firstLoop Q raw ⟨pages, fun _ => true⟩ = (true, p)

/-- Every page is unlocked and stored at its own index. -/
def Fresh (Q : FineLockPEQueue) (p : Pages) : Prop :=
  ∀ i < Q.qSize, p.pagelocks i = false ∧ (p.pages i).offset = i * Q.pageSize

theorem firstLoop_spec {Q : FineLockPEQueue} (hps : 0 < Q.pageSize) (raw : Nat → PageEntry)
    (s : Pages) : (firstLoop Q raw s).1 = true ∧
      ∀ i < Q.qSize, (firstLoop Q raw s).2.pagelocks i = false ∧
        (firstLoop Q raw s).2.pages i = (firstEntry Q (raw i) i).cleared := by
  refine forUpTo_inv (fun k (r : Bool × Pages) => r.1 = true ∧
    ∀ i < k, r.2.pagelocks i = false ∧ r.2.pages i = (firstEntry Q (raw i) i).cleared) ?_ ?_
  · exact ⟨rfl, fun i hi => by omega⟩
  · rintro k hk ⟨ok, p⟩ ⟨hok, hp⟩
    have hidx : (firstEntry Q (raw k) k).offset / Q.pageSize = k := Nat.mul_div_cancel _ hps
    simp only [FineLockPEQueue.putEmpty, hidx, if_neg (by omega : ¬ Q.qSize = 0), if_pos hk]
    refine ⟨by simpa using hok, fun i hi => ?_⟩
    by_cases hik : i = k
    · subst hik
      simp [Pages.setLock, Pages.setEntry]
    · simpa [Pages.setLock, Pages.setEntry, hik] using hp i (by omega)

theorem AfterFirstLoop.fresh {Q : FineLockPEQueue} (hps : 0 < Q.pageSize) {p : Pages}
    (h : AfterFirstLoop Q p) : Fresh Q p := by
  obtain ⟨raw, pages, hp⟩ := h
  intro i hi
  obtain ⟨-, hspec⟩ := firstLoop_spec hps raw ⟨pages, fun _ => true⟩
  rw [hp] at hspec
  obtain ⟨hlock, hpage⟩ := hspec i hi
  exact ⟨hlock, by rw [hpage]; rfl⟩

/-! ## What a thread has in hand -/

@[simp] theorem FineLockPEQueue.copyOut_offset (Q : FineLockPEQueue) (kind : PageKind) (i : Nat)
    (pe : PageEntry) : (Q.copyOut kind i pe).offset = pe.offset := by
  unfold FineLockPEQueue.copyOut
  split <;> rfl

@[simp] theorem FineLockPEQueue.copyOut_pattern (Q : FineLockPEQueue) (kind : PageKind) (i : Nat)
    (pe : PageEntry) : (Q.copyOut kind i pe).pattern = pe.pattern := by
  unfold FineLockPEQueue.copyOut
  split <;> rfl

theorem FineLockPEQueue.holds_copyOut (Q : FineLockPEQueue) (kind kind' : PageKind) (i : Nat)
    (pe : PageEntry) : kind'.holds (Q.copyOut kind i pe) = kind'.holds pe := by
  cases kind' <;> simp [PageKind.holds]

theorem Pages.setEntry_offset {Q : FineLockPEQueue} {s : Pages} {i : Nat} {pe : PageEntry}
    (h : ∀ j < Q.qSize, (s.pages j).offset = j * Q.pageSize) (hi : pe.offset = i * Q.pageSize) :
    ∀ j < Q.qSize, ((s.setEntry i pe).pages j).offset = j * Q.pageSize := by
  intro j hj
  by_cases hji : j = i
  · subst hji
    simpa [Pages.setEntry] using hi
  · simpa [Pages.setEntry, hji] using h j hj

namespace FineLockPEQueue

/-- The pages a thread has in hand at `o`, when its program has the pages `H` in hand. A get
adds the page it has locked; a put keeps its page until it has unlocked it. -/
def inHand (Q : FineLockPEQueue) (o : Op) (H : Multiset Nat) : Multiset Nat :=
  match o with
  | .recheck _ i | .giveUp _ i | .copyOut _ i => i ::ₘ H
  | .done (.get _ _) (.entry (some pe)) => pe.offset / Q.pageSize ::ₘ H
  | .done (.put _ pe) (.status true) => H.erase (pe.offset / Q.pageSize)
  | _ => H

/-- What is known of a thread at `o`. -/
def OpSound (Q : FineLockPEQueue) (s : Pages) : Op → Prop
  | .testTag _ i | .tryLock _ i | .recheck _ i => i < Q.qSize
  | .giveUp c i => i < Q.qSize ∧ c.kind.holds (s.pages i) = false
  | .copyOut c i => i < Q.qSize ∧ c.kind.holds (s.pages i) = true
  | .copyIn kind pe i => i < Q.qSize ∧ pe.offset = i * Q.pageSize ∧
      (kind = .valid → PageKind.holds .valid pe = true)
  | .clear pe i => i < Q.qSize ∧ pe.offset = i * Q.pageSize
  | .unlock kind pe i => i < Q.qSize ∧ pe.offset = i * Q.pageSize ∧
      kind.holds (s.pages i) = true
  | .done (.get kind _) (.entry (some pe)) =>
      ∃ i < Q.qSize, pe.offset = i * Q.pageSize ∧ kind.holds pe = true
  | .done (.get _ _) (.status _) => False
  | .done (.put _ _) (.entry _) => False
  | _ => True

/-- The index whose entry `OpSound` speaks about. -/
def readsIndex : Op → Option Nat
  | .giveUp _ i | .copyOut _ i | .unlock _ _ i => some i
  | _ => none

theorem OpSound.congr {Q : FineLockPEQueue} {s p : Pages} {o : Op} (h : Q.OpSound s o)
    (heq : ∀ i, readsIndex o = some i → p.pages i = s.pages i) : Q.OpSound p o := by
  cases o with
  | giveUp c i =>
      refine ⟨h.1, ?_⟩
      rw [heq i rfl]
      exact h.2
  | copyOut c i =>
      refine ⟨h.1, ?_⟩
      rw [heq i rfl]
      exact h.2
  | unlock kind pe i =>
      refine ⟨h.1, h.2.1, ?_⟩
      rw [heq i rfl]
      exact h.2.2
  | done r a => rcases r with ⟨⟩ | ⟨⟩ <;> rcases a with (_ | pe) | ok <;> exact h
  | _ => exact h

end FineLockPEQueue

section Owned

variable {τ κ ω : Type} [DecidableEq τ] {C : Program τ κ ω} {Q : FineLockPEQueue}
  {init : Pages → Prop}

/-- The pages thread `t` has in hand. -/
def holding (D : Discipline C) (s : Sys (Q.obj τ init) κ ω) (t : τ) : Multiset Nat :=
  Q.inHand (s.obj.op t) ((D.held (s.ctl t)).map (· / Q.pageSize))

/-- The invariant of the queue under interleaving. -/
structure Owned (D : Discipline C) (s : Sys (Q.obj τ init) κ ω) : Prop where
  request : ∀ t, s.obj.op t = .idle ∨ C.call (s.ctl t) = (s.obj.op t).request
  offset : ∀ i < Q.qSize, (s.obj.pages i).offset = i * Q.pageSize
  aligned : ∀ t, ∀ o ∈ D.held (s.ctl t), ∃ i < Q.qSize, o = i * Q.pageSize
  sound : ∀ t, Q.OpSound s.obj.toPages (s.obj.op t)
  exclusive : Exclusive (· < Q.qSize) s.obj.pagelocks (holding D s)

variable {D : Discipline C} {s : Sys (Q.obj τ init) κ ω}

/-- A put under way works on a page in hand. -/
theorem Owned.mem_of_put (h : Owned D s) {t : τ} {kind : PageKind} {pe : PageEntry} {i : Nat}
    (hps : 0 < Q.pageSize) (hreq : (s.obj.op t).request = some (.put kind pe))
    (hi : pe.offset = i * Q.pageSize) : i ∈ (D.held (s.ctl t)).map (· / Q.pageSize) := by
  have hcall : C.call (s.ctl t) = some (.put kind pe) := by
    rcases h.request t with hidle | hcall
    · rw [hidle] at hreq
      exact absurd hreq (by simp [Op.request])
    · rw [hcall, hreq]
  refine Multiset.mem_map.mpr ⟨pe.offset, D.owns hcall, ?_⟩
  rw [hi]
  exact Nat.mul_div_cancel _ hps

/-- What `OpSound` says of a thread is about a page the thread has in hand. -/
theorem Owned.mem_of_reads (h : Owned D s) (hps : 0 < Q.pageSize) {t : τ} {i : Nat}
    (hr : FineLockPEQueue.readsIndex (s.obj.op t) = some i) : i ∈ holding D s t := by
  unfold holding
  have hs := h.sound t
  cases ho : s.obj.op t with
  | giveUp c j =>
      rw [ho] at hr
      obtain rfl : j = i := by simpa [FineLockPEQueue.readsIndex] using hr
      simp [FineLockPEQueue.inHand]
  | copyOut c j =>
      rw [ho] at hr
      obtain rfl : j = i := by simpa [FineLockPEQueue.readsIndex] using hr
      simp [FineLockPEQueue.inHand]
  | unlock kind pe j =>
      rw [ho] at hr hs
      obtain rfl : j = i := by simpa [FineLockPEQueue.readsIndex] using hr
      exact h.mem_of_put hps (by rw [ho]; rfl) hs.2.1
  | _ =>
      rw [ho] at hr
      exact absurd hr (by simp [FineLockPEQueue.readsIndex])

/-- A step of one thread keeps the invariant if it keeps that thread's part of it and writes
no entry but those it has in hand. -/
theorem Owned.update (h : Owned D s) (hps : 0 < Q.pageSize) {t : τ} {o : Op} {k : κ} {p : Pages}
    {w : ω} (hreq : o = .idle ∨ C.call k = o.request)
    (hoff : ∀ i < Q.qSize, (p.pages i).offset = i * Q.pageSize)
    (hal : ∀ x ∈ D.held k, ∃ i < Q.qSize, x = i * Q.pageSize) (hsound : Q.OpSound p o)
    (hframe : ∀ i, i ∉ holding D s t → p.pages i = s.obj.pages i)
    (hexcl : Exclusive (· < Q.qSize) p.pagelocks
      (Function.update (holding D s) t (Q.inHand o ((D.held k).map (· / Q.pageSize))))) :
    Owned D (⟨⟨p, Function.update s.obj.op t o⟩, Function.update s.ctl t k, w⟩ :
      Sys (Q.obj τ init) κ ω) := by
  refine ⟨?_, hoff, ?_, ?_, ?_⟩
  · intro t'
    by_cases ht : t' = t
    · subst ht
      simpa using hreq
    · simpa [ht] using h.request t'
  · intro t'
    by_cases ht : t' = t
    · subst ht
      simpa using hal
    · simpa [ht] using h.aligned t'
  · intro t'
    by_cases ht : t' = t
    · subst ht
      simpa using hsound
    · simp only [Function.update_of_ne ht]
      refine (h.sound t').congr fun i hi => hframe i fun hmem => ht ?_
      exact h.exclusive.owner_unique (h.mem_of_reads hps hi) hmem
  · convert hexcl using 1
    funext t'
    by_cases ht : t' = t
    · subst ht
      simp [holding]
    · simp [holding, ht]

/-- The same for a step that writes no page and whose program stays where it is. -/
theorem Owned.update_op (h : Owned D s) (hps : 0 < Q.pageSize) {t : τ} {o : Op}
    (hreq : o = .idle ∨ C.call (s.ctl t) = o.request) (hsound : Q.OpSound s.obj.toPages o)
    (hhand : Q.inHand o ((D.held (s.ctl t)).map (· / Q.pageSize)) = holding D s t) :
    Owned D (⟨⟨s.obj.toPages, Function.update s.obj.op t o⟩, s.ctl, s.world⟩ :
      Sys (Q.obj τ init) κ ω) := by
  have hup := h.update hps (w := s.world) hreq h.offset (h.aligned t) hsound (fun _ _ => rfl)
    (by rw [hhand, Function.update_eq_self]; exact h.exclusive)
  rwa [Function.update_eq_self] at hup

theorem Owned.call_of_ne_idle (h : Owned D s) {t : τ} (hne : s.obj.op t ≠ .idle) :
    C.call (s.ctl t) = (s.obj.op t).request := (h.request t).resolve_left hne

/-- The entry into a call takes nothing in hand. -/
theorem Owned.enter (h : Owned D s) (hps : 0 < Q.pageSize) {t : τ} {r : Request} {random64 : Nat}
    (hidle : s.obj.op t = .idle) (hcall : C.call (s.ctl t) = some r) :
    Owned D (⟨⟨s.obj.toPages, Function.update s.obj.op t (Q.enter random64 r)⟩, s.ctl, s.world⟩ :
      Sys (Q.obj τ init) κ ω) := by
  have hhold : holding D s t = (D.held (s.ctl t)).map (· / Q.pageSize) := by
    simp [holding, hidle, FineLockPEQueue.inHand]
  rcases r with ⟨kind, tag⟩ | ⟨kind, pe⟩
  · simp only [FineLockPEQueue.enter]
    split
    · exact h.update_op hps (.inr hcall) trivial (by rw [hhold]; rfl)
    · exact h.update_op hps (.inr hcall) trivial (by rw [hhold]; rfl)
  · obtain ⟨i, hi, hoff⟩ := h.aligned t _ (D.owns hcall)
    have hidx : pe.offset / Q.pageSize = i := by
      rw [hoff]
      exact Nat.mul_div_cancel _ hps
    simp only [FineLockPEQueue.enter, hidx, if_pos hi]
    split
    · exact h.update_op hps (.inr hcall) trivial (by rw [hhold]; rfl)
    · next hcheck =>
      refine h.update_op hps (.inr hcall) ⟨hi, hoff, ?_⟩ (by rw [hhold]; rfl)
      rintro rfl
      by_contra hv
      exact hcheck (by simp [hv])

/-- A put that has not yet unlocked its page has it in hand. -/
theorem Owned.mem_holding_of_put (h : Owned D s) (hps : 0 < Q.pageSize) {t : τ} {o : Op}
    {kind : PageKind} {pe : PageEntry} {j : Nat} (ho : s.obj.op t = o)
    (hrequest : o.request = some (.put kind pe)) (hoff : pe.offset = j * Q.pageSize)
    (hin : ∀ H, Q.inHand o H = H) : j ∈ holding D s t := by
  rw [holding, ho, hin]
  exact h.mem_of_put hps (by rw [ho]; exact hrequest) hoff

/-- Every step inside the queue keeps the invariant. -/
theorem Owned.microStep (h : Owned D s) (hps : 0 < Q.pageSize) {t : τ} {p : Pages} {o o' : Op}
    (ho : s.obj.op t = o) (hm : FineLockPEQueue.MicroStep Q s.obj.toPages o p o') :
    Owned D (⟨⟨p, Function.update s.obj.op t o'⟩, s.ctl, s.world⟩ : Sys (Q.obj τ init) κ ω) := by
  have hsound := h.sound t
  have hhold : holding D s t =
    Q.inHand (s.obj.op t) ((D.held (s.ctl t)).map (· / Q.pageSize)) := rfl
  have hcall : C.call (s.ctl t) = o'.request := by
    rw [hm.request_eq, ← ho]
    apply h.call_of_ne_idle
    rw [ho]
    cases hm <;> simp
  rw [ho] at hsound hhold
  -- a step that writes a page, takes a lock or gives one back
  have hwrite (p : Pages) (hoff : ∀ i < Q.qSize, (p.pages i).offset = i * Q.pageSize)
      (hs : Q.OpSound p o') (hframe : ∀ i, i ∉ holding D s t → p.pages i = s.obj.pages i)
      (hexcl : Exclusive (· < Q.qSize) p.pagelocks
        (Function.update (holding D s) t
          (Q.inHand o' ((D.held (s.ctl t)).map (· / Q.pageSize))))) :
      Owned D (⟨⟨p, Function.update s.obj.op t o'⟩, s.ctl, s.world⟩ : Sys (Q.obj τ init) κ ω) := by
    have hup := h.update hps (w := s.world) (.inr hcall) hoff (h.aligned t) hs hframe hexcl
    rwa [Function.update_eq_self] at hup
  have hentry {pe : PageEntry} {j : Nat} (hj : j ∈ holding D s t) :
      ∀ i, i ∉ holding D s t → (s.obj.toPages.setEntry j pe).pages i = s.obj.pages i := by
    intro i hi
    have hij : i ≠ j := fun hij => hi (hij ▸ hj)
    simp [Pages.setEntry, hij]
  cases hm with
  | skip hlt hadv hno => exact h.update_op hps (.inr hcall) trivial hhold.symm
  | look hlt hadv htag =>
      exact h.update_op hps (.inr hcall) (Path.index_lt (by omega) _ _) hhold.symm
  | lookTag hlt hadv =>
      exact h.update_op hps (.inr hcall) (Path.index_lt (by omega) _ _) hhold.symm
  | exhausted hge => exact h.update_op hps (.inr hcall) trivial hhold.symm
  | tagHit => exact h.update_op hps (.inr hcall) hsound hhold.symm
  | tagMiss hno => exact h.update_op hps (.inr hcall) trivial hhold.symm
  | busy hl => exact h.update_op hps (.inr hcall) trivial hhold.symm
  | @lock c j hl =>
      refine hwrite _ h.offset hsound (fun _ _ => rfl) ?_
      have hin : Q.inHand (.recheck c j) ((D.held (s.ctl t)).map (· / Q.pageSize)) =
          j ::ₘ holding D s t := by
        rw [hhold]
        rfl
      rw [hin]
      exact h.exclusive.acquire hsound hl
  | confirm hk => exact h.update_op hps (.inr hcall) ⟨hsound, hk⟩ hhold.symm
  | refute hk => exact h.update_op hps (.inr hcall) ⟨hsound, hk⟩ hhold.symm
  | @giveUp c j =>
      refine hwrite _ h.offset trivial (fun _ _ => rfl) ?_
      have hrel := h.exclusive.release (t := t) (i := j)
        (by rw [hhold]; simp [FineLockPEQueue.inHand])
      rw [hhold] at hrel
      simpa [FineLockPEQueue.inHand, Pages.setLock] using hrel
  | @copyOut c j =>
      obtain ⟨hj, hk⟩ := hsound
      have hoff : (Q.copyOut c.kind c.i (s.obj.pages j)).offset = j * Q.pageSize := by
        rw [FineLockPEQueue.copyOut_offset, h.offset j hj]
      apply h.update_op hps (.inr hcall)
      · exact ⟨j, hj, hoff, by rw [FineLockPEQueue.holds_copyOut]; exact hk⟩
      · rw [hhold]
        simp only [FineLockPEQueue.inHand, hoff, Nat.mul_div_cancel _ hps]
  | @copyInEmpty pe j =>
      obtain ⟨hj, hoff, -⟩ := hsound
      have hmem := h.mem_holding_of_put hps ho rfl hoff fun _ => rfl
      refine hwrite _ (Pages.setEntry_offset h.offset hoff) ⟨hj, hoff⟩ (hentry hmem) ?_
      rw [show Q.inHand (.clear pe j) _ = holding D s t by rw [hhold]; rfl,
        Function.update_eq_self]
      exact h.exclusive
  | @copyInValid pe j =>
      obtain ⟨hj, hoff, hvalid⟩ := hsound
      have hmem := h.mem_holding_of_put hps ho rfl hoff fun _ => rfl
      refine hwrite _ (Pages.setEntry_offset h.offset hoff) ⟨hj, hoff, ?_⟩ (hentry hmem) ?_
      · simpa [Pages.setEntry] using hvalid rfl
      · rw [show Q.inHand (.unlock .valid pe j) _ = holding D s t by rw [hhold]; rfl,
          Function.update_eq_self]
        exact h.exclusive
  | @clear pe j =>
      obtain ⟨hj, hoff⟩ := hsound
      have hmem := h.mem_holding_of_put hps ho rfl hoff fun _ => rfl
      refine hwrite _ (Pages.setEntry_offset h.offset (h.offset j hj)) ⟨hj, hoff, ?_⟩
        (hentry hmem) ?_
      · simp [Pages.setEntry, PageEntry.cleared, PageKind.holds]
      · rw [show Q.inHand (.unlock .empty pe j) _ = holding D s t by rw [hhold]; rfl,
          Function.update_eq_self]
        exact h.exclusive
  | @unlock kind pe j =>
      obtain ⟨hj, hoff, -⟩ := hsound
      have hmem := h.mem_holding_of_put hps ho rfl hoff fun _ => rfl
      refine hwrite _ h.offset trivial (fun _ _ => rfl) ?_
      have hrel := h.exclusive.release hmem
      rw [hhold] at hrel
      simpa [FineLockPEQueue.inHand, Pages.setLock, hoff, Nat.mul_div_cancel _ hps] using hrel

/-- The answer of a call passes to the program what the call had in hand. -/
theorem Owned.ret (h : Owned D s) (hps : 0 < Q.pageSize) {t : τ} {r : Request} {a : Response}
    (ho : s.obj.op t = .done r a) :
    Owned D (⟨⟨s.obj.toPages, Function.update s.obj.op t .idle⟩,
      Function.update s.ctl t (C.resume t (s.ctl t) a), s.world⟩ : Sys (Q.obj τ init) κ ω) := by
  have hsound := h.sound t
  have hhold : holding D s t =
    Q.inHand (s.obj.op t) ((D.held (s.ctl t)).map (· / Q.pageSize)) := rfl
  have hcall := h.call_of_ne_idle (t := t) (by rw [ho]; simp)
  rw [ho] at hsound hhold hcall
  -- the program has in hand after the answer what the call had in hand before it
  have key : (∀ x ∈ D.held (C.resume t (s.ctl t) a), ∃ i < Q.qSize, x = i * Q.pageSize) ∧
      (D.held (C.resume t (s.ctl t) a)).map (· / Q.pageSize) = holding D s t := by
    rcases r with ⟨kind, tag⟩ | ⟨kind, pe⟩
    · rcases a with (_ | pe) | ok
      · rw [D.missed hcall, hhold]
        exact ⟨h.aligned t, rfl⟩
      · rw [D.got hcall, hhold, Multiset.map_cons]
        obtain ⟨i, hi, hoff, -⟩ := hsound
        refine ⟨fun x hx => ?_, rfl⟩
        rcases Multiset.mem_cons.mp hx with rfl | hx
        · exact ⟨i, hi, hoff⟩
        · exact h.aligned t x hx
      · exact hsound.elim
    · rcases a with e | ok
      · exact hsound.elim
      · cases ok with
        | false =>
            rw [D.kept hcall, hhold]
            exact ⟨h.aligned t, rfl⟩
        | true =>
            rw [D.gave hcall, hhold, Multiset.map_erase_of_mem _ _ (D.owns hcall)]
            exact ⟨fun x hx => h.aligned t x (Multiset.mem_of_mem_erase hx), rfl⟩
  refine h.update hps (.inl rfl) h.offset key.1 trivial (fun _ _ => rfl) ?_
  have hidle : Q.inHand .idle ((D.held (C.resume t (s.ctl t) a)).map (· / Q.pageSize)) =
      holding D s t := key.2
  rw [hidle, Function.update_eq_self]
  exact h.exclusive

theorem Owned.loc (h : Owned D s) (hps : 0 < Q.pageSize) {t : τ} {k : κ} {w : ω}
    (hcall : C.call (s.ctl t) = none) (hstep : C.step t (s.ctl t) s.world k w) :
    Owned D (⟨s.obj, Function.update s.ctl t k, w⟩ : Sys (Q.obj τ init) κ ω) := by
  have hidle : s.obj.op t = .idle := by
    cases h.request t with
    | inl hidle => exact hidle
    | inr hreq =>
        rw [hcall] at hreq
        cases ho : s.obj.op t <;> simp [ho, Op.request] at hreq ⊢
  have hup := h.update hps (t := t) (o := .idle) (k := k) (w := w) (p := s.obj.toPages) (.inl rfl)
    h.offset (by rw [D.step hcall hstep]; exact h.aligned t) trivial (fun _ _ => rfl) ?_
  · rw [← hidle, Function.update_eq_self] at hup
    exact hup
  · have : Q.inHand .idle ((D.held k).map (· / Q.pageSize)) = holding D s t := by
      rw [D.step hcall hstep, holding, hidle]
    rw [this, Function.update_eq_self]
    exact h.exclusive

theorem owned_of_initial (D : Discipline C) (hfresh : ∀ p, init p → Fresh Q p)
    {s : Sys (Q.obj τ init) κ ω} (h : Initial (Q.obj τ init) C s) : Owned D s := by
  obtain ⟨⟨hinit, hidle⟩, hctl⟩ := h
  have hf := hfresh _ hinit
  have hempty : ∀ t, holding D s t = 0 := fun t => by
    rw [holding, hidle t, D.init hctl t]
    rfl
  refine ⟨fun t => .inl (hidle t), fun i hi => (hf i hi).2, ?_, ?_, ?_⟩
  · intro t o ho
    rw [D.init hctl t] at ho
    exact absurd ho (Multiset.notMem_zero o)
  · intro t
    rw [hidle t]
    trivial
  · refine ⟨?_, ?_, ?_, ?_⟩
    · intro t i hi
      rw [hempty] at hi
      exact absurd hi (Multiset.notMem_zero i)
    · intro t
      rw [hempty]
      exact Multiset.nodup_zero
    · intro t t' i hi
      rw [hempty] at hi
      exact absurd hi (Multiset.notMem_zero i)
    · intro i hi
      simp [(hf i hi).1, hempty]

/-- Every step of any thread keeps the invariant. -/
theorem Owned.step (h : Owned D s) (hps : 0 < Q.pageSize) {s' : Sys (Q.obj τ init) κ ω}
    (hstep : Step (Q.obj τ init) C s s') : Owned D s' := by
  cases hstep with
  | call hcall hc =>
      obtain ⟨hidle, random64, -, rfl⟩ := hc
      exact h.enter hps hidle hcall
  | obj ho =>
      obtain ⟨p, o, hm, rfl⟩ := ho
      exact h.microStep hps rfl (FineLockPEQueue.microStep_cases hm)
  | ret hr =>
      obtain ⟨r, ho, rfl⟩ := hr
      exact h.ret hps ho
  | loc hcall hl => exact h.loc hps hcall hl
  | env he => exact ⟨h.request, h.offset, h.aligned, h.sound, h.exclusive⟩

/-- **Ownership.** From arrays with every page unlocked at its index, `Owned` holds in every
state of every interleaving. -/
theorem owned_of_reachable (D : Discipline C) (hps : 0 < Q.pageSize)
    (hfresh : ∀ p, init p → Fresh Q p) {s : Sys (Q.obj τ init) κ ω}
    (h : Reachable (Q.obj τ init) C s) : Owned D s :=
  h.inv (fun _ hs => owned_of_initial D hfresh hs) fun _ _ hs hstep => hs.step hps hstep

/-- A step inside the queue writes only pages its thread has in hand. -/
theorem Owned.frame (h : Owned D s) (hps : 0 < Q.pageSize) {t : τ} {p : Pages} {o o' : Op}
    (ho : s.obj.op t = o) (hm : FineLockPEQueue.MicroStep Q s.obj.toPages o p o') :
    ∀ i, i ∉ holding D s t → p.pages i = s.obj.pages i := by
  intro i hi
  have hsound := h.sound t
  rw [ho] at hsound
  have hstore {pe e : PageEntry} {kind : PageKind} {j : Nat}
      (hreq : (s.obj.op t).request = some (.put kind pe)) (hoff : pe.offset = j * Q.pageSize)
      (hin : Q.inHand (s.obj.op t) ((D.held (s.ctl t)).map (· / Q.pageSize)) =
        (D.held (s.ctl t)).map (· / Q.pageSize)) :
      (s.obj.toPages.setEntry j e).pages i = s.obj.pages i := by
    have hne : i ≠ j := by
      rintro rfl
      refine hi ?_
      rw [holding, hin]
      exact h.mem_of_put hps hreq hoff
    simp [Pages.setEntry, hne]
  cases hm with
  | copyInEmpty => exact hstore (by rw [ho]; rfl) hsound.2.1 (by rw [ho]; rfl)
  | copyInValid => exact hstore (by rw [ho]; rfl) hsound.2.1 (by rw [ho]; rfl)
  | clear => exact hstore (by rw [ho]; rfl) hsound.2 (by rw [ho]; rfl)
  | _ => rfl

end Owned

/-! ## The states of a page -/

/-- Exactly one of three propositions. -/
def ExactlyOne (a b c : Prop) : Prop := (a ∧ ¬ b ∧ ¬ c) ∨ (¬ a ∧ b ∧ ¬ c) ∨ (¬ a ∧ ¬ b ∧ c)

/-- Page `i` is unlocked and of the given kind. -/
def Pages.Unlocked (s : Pages) (kind : PageKind) (i : Nat) : Prop :=
  s.pagelocks i = false ∧ kind.holds (s.pages i) = true

theorem exactlyOne_of_owned {τ κ ω : Type} [DecidableEq τ] {C : Program τ κ ω}
    {Q : FineLockPEQueue} {init : Pages → Prop} {D : Discipline C} {s : Sys (Q.obj τ init) κ ω}
    (h : Owned D s) {i : Nat} (hi : i < Q.qSize) :
    ExactlyOne (s.obj.toPages.Unlocked .valid i) (s.obj.toPages.Unlocked .empty i)
      (∃! t, i ∈ holding D s t) := by
  cases hl : s.obj.pagelocks i with
  | true =>
      refine .inr (.inr ⟨?_, ?_, h.exclusive.existsUnique hi hl⟩)
      · exact fun hu => by simp [Pages.Unlocked, hl] at hu
      · exact fun hu => by simp [Pages.Unlocked, hl] at hu
  | false =>
      have hno : ¬ ∃! t, i ∈ holding D s t := by
        intro hex
        obtain ⟨t, ht, -⟩ := hex
        have := h.exclusive.locked_of_mem ht
        rw [hl] at this
        exact absurd this (by decide)
      cases hp : (s.obj.pages i).pattern with
      | none => exact .inr (.inl ⟨by simp [Pages.Unlocked, PageKind.holds, hp],
          by simp [Pages.Unlocked, PageKind.holds, hp, hl], hno⟩)
      | some p => exact .inl ⟨by simp [Pages.Unlocked, PageKind.holds, hp, hl],
          by simp [Pages.Unlocked, PageKind.holds, hp], hno⟩

/-- **Page ownership.** For any number of workers that put back only what they obtained and
any interleaving, after the first loop of `InitializePages`: each page is unlocked and valid,
unlocked and empty, or in the hands of exactly one worker, and there once; the entry stored at
an index, and the entry handed out from it, has the offset of that index, and a put of an
entry in hand lands on that index; a search for valid pages returns no null pattern, one for
empty pages only null ones. -/
theorem page_ownership {τ κ ω : Type} [DecidableEq τ] {C : Program τ κ ω} (D : Discipline C)
    {q pagesize : Nat} (hps : 0 < pagesize) {Q : FineLockPEQueue}
    (hQ : FineLockPEQueue.construct q pagesize = some Q)
    {s : Sys (Q.obj τ (AfterFirstLoop Q)) κ ω} (h : Reachable (Q.obj τ (AfterFirstLoop Q)) C s) :
    (∀ i < q, ExactlyOne (s.obj.toPages.Unlocked .valid i) (s.obj.toPages.Unlocked .empty i)
      (∃! t, i ∈ holding D s t)) ∧
    (∀ t, (holding D s t).Nodup) ∧
    (∀ i < q, (s.obj.pages i).offset = i * pagesize) ∧
    (∀ t c i, s.obj.op t = .copyOut c i →
      i ∈ holding D s t ∧ (Q.copyOut c.kind c.i (s.obj.pages i)).offset = i * pagesize) ∧
    (∀ t kind pe, C.call (s.ctl t) = some (.put kind pe) → (kind = .valid → pe.pattern ≠ none) →
      ∃ i < q, pe.offset = i * pagesize ∧
        ∀ random64, Q.enter random64 (.put kind pe) = .copyIn kind pe i) ∧
    (∀ t kind pe i, s.obj.op t = .copyIn kind pe i →
      i ∈ holding D s t ∧ pe.offset = i * pagesize) ∧
    (∀ t kind tag pe, s.obj.op t = .done (.get kind tag) (.entry (some pe)) →
      kind.holds pe = true) := by
  obtain ⟨rfl, rfl⟩ := FineLockPEQueue.construct_fields hQ
  have ho := owned_of_reachable D hps (fun p hp => hp.fresh hps) h
  refine ⟨fun i hi => exactlyOne_of_owned ho hi, ho.exclusive.nodup, ho.offset, ?_, ?_, ?_, ?_⟩
  · intro t c i hop
    have hs := ho.sound t
    rw [hop] at hs
    refine ⟨ho.mem_of_reads hps (by rw [hop]; rfl), ?_⟩
    rw [FineLockPEQueue.copyOut_offset, ho.offset i hs.1]
  · intro t kind pe hcall hvalid
    obtain ⟨i, hi, hoff⟩ := ho.aligned t _ (D.owns hcall)
    refine ⟨i, hi, hoff, fun random64 => ?_⟩
    have hidx : pe.offset / Q.pageSize = i := by
      rw [hoff]
      exact Nat.mul_div_cancel _ hps
    have hpos : Q.qSize ≠ 0 := by omega
    simp only [FineLockPEQueue.enter, hidx, if_pos hi]
    rw [if_neg]
    cases kind with
    | empty => simpa using hpos
    | valid => simpa [PageKind.holds, hpos] using hvalid rfl
  · intro t kind pe i hop
    have hs := ho.sound t
    rw [hop] at hs
    refine ⟨?_, hs.2.1⟩
    have hmem := ho.mem_of_put hps (t := t) (by rw [hop]; rfl) hs.2.1
    simpa [holding, hop, FineLockPEQueue.inHand] using hmem
  · intro t kind tag pe hop
    have hs := ho.sound t
    rw [hop] at hs
    obtain ⟨i, -, -, hk⟩ := hs
    exact hk

/-- Two pages of one word and two unrestricted workers; the first is about to recheck page 1,
which its search for an empty page has locked. -/
theorem page_ownership_two :
    ∃ (Q : FineLockPEQueue) (s : Sys (Q.obj Bool (AfterFirstLoop Q)) AnyWorker Unit),
      FineLockPEQueue.construct 2 8 = some Q ∧ Reachable _ (anyWorkers Bool) s ∧
      s.obj.toPages.Unlocked .empty 0 ∧ ∃! t, 1 ∈ holding (anyDiscipline Bool) s t := by
  let Q : FineLockPEQueue := ⟨⟨2, 1, 1, 2⟩, 8, .kTouch⟩
  have hQ : FineLockPEQueue.construct 2 8 = some Q := by decide
  let raw : PageEntry := ⟨0, none, 0, none, 0, 0, 0, 0, 0, none⟩
  let p : Pages := (firstLoop Q (fun _ => raw) ⟨fun _ => raw, fun _ => true⟩).2
  have hp : AfterFirstLoop Q p :=
    ⟨fun _ => raw, fun _ => raw, Prod.ext (firstLoop_spec (by decide) _ _).1 rfl⟩
  let s₀ : Sys (Q.obj Bool (AfterFirstLoop Q)) AnyWorker Unit :=
    ⟨⟨p, fun _ => .idle⟩, fun _ => ⟨0, none, by simp⟩, ()⟩
  let final := Q.run (AfterFirstLoop Q) (anyWorkers Bool) anyWorkers.choose s₀
    [.loc true ⟨0, some (.get .empty kDontCareTag), by simp⟩, .call true 0, .obj true, .obj true]
  have hfinal : final.any (fun s => s.obj.pagelocks 1 && !s.obj.pagelocks 0 &&
      PageKind.holds .empty (s.obj.pages 0)) = true := by decide +kernel
  obtain ⟨s, hs, hfacts⟩ := (Option.any_eq_true _ _).mp hfinal
  simp only [Bool.and_eq_true, Bool.not_eq_true'] at hfacts
  obtain ⟨⟨h1, h0⟩, hempty⟩ := hfacts
  have hreach : Reachable (Q.obj Bool (AfterFirstLoop Q)) (anyWorkers Bool) s :=
    ⟨s₀, ⟨⟨hp, fun _ => rfl⟩, fun _ => ⟨rfl, rfl⟩⟩,
      FineLockPEQueue.steps_of_run anyWorkers.step_of_choose hs⟩
  refine ⟨Q, s, hQ, hreach, ⟨h0, hempty⟩, ?_⟩
  obtain ⟨hone, -⟩ := page_ownership (anyDiscipline Bool) (by norm_num) hQ hreach
  rcases hone 1 (by norm_num) with ⟨hv, -⟩ | ⟨-, he, -⟩ | ⟨-, -, hheld⟩
  · exact absurd hv.1 (by simp [h1])
  · exact absurd he.1 (by simp [h1])
  · exact hheld

end StressAppTest.FineLock
