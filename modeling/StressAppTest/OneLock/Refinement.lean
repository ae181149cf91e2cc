import StressAppTest.Pool
import StressAppTest.Library.Ownership
import StressAppTest.OneLock.Queue

/-!
# The two queues refine the pool

With `SAT_ONELOCK` valid and empty pages live in two ring buffers, each under its own mutex,
so that a pop or a push is one step. Every page is in one of the two lists or in the hands of
one worker (`Owned`); a page is in the pool while it is in a list.

* `owned_of_reachable`: `Owned` holds in every reachable state; in particular no push ever
  finds its queue full.
* `simulation`: every step of the queues is a step of the pool.
-/

namespace StressAppTest.OneLock

open Threads Ownership

/-- `valid_` and `empty_`, and where each thread stands. -/
structure State (τ : Type) where
  queue : PageKind → PageEntryQueue
  op : τ → PoolOp

/-- `PopRandom` or `Push` on the queue of the kind. Both ignore the tag. -/
def serve (queue : PageKind → PageEntryQueue) (rand : Nat) :
    Request → (PageKind → PageEntryQueue) × Response
  | .get kind _ =>
    let r := (queue kind).popRandom rand
    (Function.update queue kind r.1, .entry r.2)
  | .put kind pe =>
    let r := (queue kind).push pe
    (Function.update queue kind r.1, .status r.2)

/-- The two queues as a shared object. `random()` is any value. -/
@[reducible] def obj (τ : Type) [DecidableEq τ] (init : (PageKind → PageEntryQueue) → Prop) :
    Obj τ Request Response where
  State := State τ
  init s := init s.queue ∧ ∀ t, s.op t = .idle
  call s t r s' := s.op t = .idle ∧ s' = { s with op := Function.update s.op t (.busy r) }
  step s t s' := ∃ r, ∃ rand < 2 ^ 31, s.op t = .busy r ∧
    s' = ⟨(serve s.queue rand r).1, Function.update s.op t (.done r (serve s.queue rand r).2)⟩
  ret s t a s' := ∃ r, s.op t = .done r a ∧ s' = { s with op := Function.update s.op t .idle }

/-! ## The stock of the queues -/

/-- All entries in the queues. -/
def entries (queue : PageKind → PageEntryQueue) : List PageEntry :=
  (queue .valid).toList ++ (queue .empty).toList

theorem mem_entries {queue : PageKind → PageEntryQueue} {pe : PageEntry} :
    pe ∈ entries queue ↔ ∃ kind, pe ∈ (queue kind).toList := by
  rw [entries, List.mem_append]
  constructor
  · intro h
    cases h with
    | inl h => exact ⟨.valid, h⟩
    | inr h => exact ⟨.empty, h⟩
  · intro h
    obtain ⟨kind, h⟩ := h
    cases kind with
    | valid => exact .inl h
    | empty => exact .inr h

/-- The queues have room for all pages, and list each at most once. -/
structure Stocked (pages pageLength : Nat) (queue : PageKind → PageEntryQueue) : Prop where
  qSize : ∀ kind, (queue kind).qSize = pages + 1
  aligned : ∀ pe ∈ entries queue, ∃ i < pages, pe.offset = i * pageLength
  nodup : ((entries queue).map PageEntry.offset).Nodup

/-- An update of one queue, seen in the list of all entries. -/
theorem entries_update (queue : PageKind → PageEntryQueue) {kind : PageKind} {q : PageEntryQueue}
    {pe : PageEntry} (h : (pe :: q.toList).Perm (queue kind).toList) :
    (pe :: entries (Function.update queue kind q)).Perm (entries queue) := by
  cases kind with
  | valid => simpa [entries] using h.append_right (queue .empty).toList
  | empty =>
      have hmid : (pe :: ((queue .valid).toList ++ q.toList)).Perm
          ((queue .valid).toList ++ pe :: q.toList) := List.perm_middle.symm
      simpa [entries] using hmid.trans (h.append_left (queue .valid).toList)

/-- What a get does to the queues. -/
theorem popRandom_cases (q : PageEntryQueue) (rand : Nat) :
    ((q.popRandom rand) = (q, none) ∧ q.toList = []) ∨
    ∃ pe, (q.popRandom rand).2 = some pe ∧ (q.popRandom rand).1.qSize = q.qSize ∧
      (pe :: (q.popRandom rand).1.toList).Perm q.toList := by
  by_cases h : 0 < q.count
  · right
    obtain ⟨hpe, hsize, hlist⟩ := PageEntryQueue.popRandom_spec rand h
    have hplace := PageEntryQueue.toList_getElem? q (PageEntryQueue.place_lt rand h)
    have hfirst := PageEntryQueue.toList_getElem? q h
    rw [PageEntryQueue.loc_zero] at hfirst
    refine ⟨_, hpe.trans hplace, hsize, ?_⟩
    rw [hlist]
    exact PageEntryQueue.perm_cons_tail_set hfirst hplace
  · left
    have hzero : q.count = 0 := by omega
    exact ⟨PageEntryQueue.popRandom_nil rand hzero, List.length_eq_zero_iff.mp (by simp [hzero])⟩

section Stock

variable {pages pageLength : Nat} {queue queue' : PageKind → PageEntryQueue}

/-- No page of the queues is at this offset. -/
def out (pageLength : Nat) (queue : PageKind → PageEntryQueue) (i : Nat) : Bool :=
  decide (i * pageLength ∉ (entries queue).map PageEntry.offset)

/-- Taking out an entry. -/
theorem Stocked.remove (h : Stocked pages pageLength queue) {pe : PageEntry}
    (hsize : ∀ kind, (queue' kind).qSize = (queue kind).qSize)
    (hperm : (pe :: entries queue').Perm (entries queue)) : Stocked pages pageLength queue' where
  qSize kind := (hsize kind).trans (h.qSize kind)
  aligned pe' hpe' := h.aligned pe' (hperm.mem_iff.mp (List.mem_cons_of_mem _ hpe'))
  nodup := by
    have hnodup := (hperm.map PageEntry.offset).nodup_iff.mpr h.nodup
    rw [List.map_cons] at hnodup
    exact (List.nodup_cons.mp hnodup).2

/-- The page of an entry taken out is out. -/
theorem Stocked.out_of_remove (h : Stocked pages pageLength queue) {pe : PageEntry} {i : Nat}
    (hoff : pe.offset = i * pageLength) (hperm : (pe :: entries queue').Perm (entries queue)) :
    out pageLength queue' i = true := by
  have hnodup := (hperm.map PageEntry.offset).nodup_iff.mpr h.nodup
  rw [List.map_cons] at hnodup
  have hnot := (List.nodup_cons.mp hnodup).1
  rw [hoff] at hnot
  simpa [out] using hnot

/-- Adding an entry whose page is out. -/
theorem Stocked.add (h : Stocked pages pageLength queue) {pe : PageEntry} {i : Nat} (hi : i < pages)
    (hoff : pe.offset = i * pageLength) (hout : out pageLength queue i = true)
    (hsize : ∀ kind, (queue' kind).qSize = (queue kind).qSize)
    (hperm : (pe :: entries queue).Perm (entries queue')) : Stocked pages pageLength queue' where
  qSize kind := (hsize kind).trans (h.qSize kind)
  aligned pe' hpe' := by
    cases List.mem_cons.mp (hperm.mem_iff.mpr hpe') with
    | inl heq => exact ⟨i, hi, heq ▸ hoff⟩
    | inr hmem => exact h.aligned pe' hmem
  nodup := by
    rw [← (hperm.map PageEntry.offset).nodup_iff, List.map_cons, List.nodup_cons, hoff]
    exact ⟨by simpa [out] using hout, h.nodup⟩

/-- An entry more makes its page, and no other, come in. -/
theorem out_eq_update {pe : PageEntry} {i : Nat} (hlen : 0 < pageLength)
    (hoff : pe.offset = i * pageLength) (hperm : (pe :: entries queue).Perm (entries queue')) :
    out pageLength queue' = Function.update (out pageLength queue) i false := by
  ext j
  have hmem : j * pageLength ∈ (entries queue').map PageEntry.offset ↔
      j = i ∨ j * pageLength ∈ (entries queue).map PageEntry.offset := by
    rw [← (hperm.map PageEntry.offset).mem_iff, List.map_cons, List.mem_cons, hoff,
      Nat.mul_left_inj (by omega)]
  by_cases hji : j = i
  · subst hji
    simp only [out, hmem, Function.update_self, true_or, not_true_eq_false, decide_false]
  · simp only [out, hmem, Function.update_of_ne hji, hji, false_or]

/-- Two entries of the queues with one offset are the same, and in the same queue. -/
theorem Stocked.unique (h : Stocked pages pageLength queue) {kind kind' : PageKind}
    {pe pe' : PageEntry} (hpe : pe ∈ (queue kind).toList) (hpe' : pe' ∈ (queue kind').toList)
    (hoff : pe.offset = pe'.offset) : kind = kind' ∧ pe = pe' := by
  have hnodup := h.nodup
  rw [entries, List.map_append, List.nodup_append] at hnodup
  obtain ⟨hv, he, hdisj⟩ := hnodup
  cases kind with
  | valid =>
      cases kind' with
      | valid => exact ⟨rfl, List.inj_on_of_nodup_map hv hpe hpe' hoff⟩
      | empty =>
          exact absurd hoff (hdisj _ (List.mem_map_of_mem hpe) _ (List.mem_map_of_mem hpe'))
  | empty =>
      cases kind' with
      | valid =>
          exact absurd hoff.symm (hdisj _ (List.mem_map_of_mem hpe') _ (List.mem_map_of_mem hpe))
      | empty => exact ⟨rfl, List.inj_on_of_nodup_map he hpe hpe' hoff⟩

/-- A queue has room for a page that is out. -/
theorem Stocked.room (h : Stocked pages pageLength queue) {i : Nat} (hi : i < pages)
    (hout : out pageLength queue i = true) (kind : PageKind) :
    (queue kind).count + 1 < (queue kind).qSize := by
  have hsub : (i * pageLength :: (entries queue).map PageEntry.offset).Subset
      ((List.range pages).map (· * pageLength)) := by
    intro o ho
    cases List.mem_cons.mp ho with
    | inl heq => exact List.mem_map.mpr ⟨i, List.mem_range.mpr hi, heq.symm⟩
    | inr hmem =>
        obtain ⟨pe, hpe, rfl⟩ := List.mem_map.mp hmem
        obtain ⟨j, hj, hoff⟩ := h.aligned pe hpe
        exact List.mem_map.mpr ⟨j, List.mem_range.mpr hj, hoff.symm⟩
  have hnodup : (i * pageLength :: (entries queue).map PageEntry.offset).Nodup :=
    List.nodup_cons.mpr ⟨by simpa [out] using hout, h.nodup⟩
  have hlen := (hnodup.subperm hsub).length_le
  simp only [List.length_cons, List.length_map, List.length_range, entries, List.length_append,
    PageEntryQueue.length_toList] at hlen
  rw [h.qSize kind]
  cases kind <;> omega

end Stock

/-! ## Ownership -/

section Owned

variable {τ κ ω : Type} [DecidableEq τ] {C : Program τ κ ω}
  {init : (PageKind → PageEntryQueue) → Prop} {pages pageLength : Nat}

/-- The pages thread `t` has in hand. -/
def holding (pageLength : Nat) (D : Discipline C) (s : Sys (obj τ init) κ ω) (t : τ) :
    Multiset Nat :=
  (s.obj.op t).inHand pageLength ((D.held (s.ctl t)).map (· / pageLength))

/-- The invariant of the two queues. -/
structure Owned (pages pageLength : Nat) (D : Discipline C) (s : Sys (obj τ init) κ ω) : Prop where
  request : ∀ t, s.obj.op t = .idle ∨ C.call (s.ctl t) = (s.obj.op t).request
  stocked : Stocked pages pageLength s.obj.queue
  aligned : ∀ t, ∀ o ∈ D.held (s.ctl t), ∃ i < pages, o = i * pageLength
  sound : ∀ t, (s.obj.op t).Sound pages pageLength
  exclusive : Exclusive (· < pages) (out pageLength s.obj.queue) (holding pageLength D s)

variable {D : Discipline C} {s : Sys (obj τ init) κ ω}

/-- A step of one thread keeps the invariant if it keeps that thread's part of it. -/
theorem Owned.update (h : Owned pages pageLength D s) {t : τ} {o : PoolOp} {k : κ}
    {queue : PageKind → PageEntryQueue} {w : ω} (hreq : o = .idle ∨ C.call k = o.request)
    (hstock : Stocked pages pageLength queue)
    (hal : ∀ x ∈ D.held k, ∃ i < pages, x = i * pageLength) (hsound : o.Sound pages pageLength)
    (hexcl : Exclusive (· < pages) (out pageLength queue) (Function.update
      (holding pageLength D s) t (o.inHand pageLength ((D.held k).map (· / pageLength))))) :
    Owned pages pageLength D (⟨⟨queue, Function.update s.obj.op t o⟩, Function.update s.ctl t k, w⟩ :
      Sys (obj τ init) κ ω) := by
  refine ⟨?_, hstock, ?_, ?_, ?_⟩
  · intro t'
    by_cases ht : t' = t
    · subst ht
      simpa using hreq
    · simpa [ht] using h.request t'
  · intro t'
    by_cases ht : t' = t
    · subst ht
      simpa using hal
    · simpa [ht] using h.aligned t'
  · intro t'
    by_cases ht : t' = t
    · subst ht
      simpa using hsound
    · simpa [ht] using h.sound t'
  · convert hexcl using 1
    ext t' : 1
    by_cases ht : t' = t
    · subst ht
      simp [holding]
    · simp [holding, ht]

/-- The same when the control state stays. -/
theorem Owned.update_op (h : Owned pages pageLength D s) {t : τ} {o : PoolOp}
    {queue : PageKind → PageEntryQueue} (hreq : C.call (s.ctl t) = o.request)
    (hstock : Stocked pages pageLength queue) (hsound : o.Sound pages pageLength)
    (hexcl : Exclusive (· < pages) (out pageLength queue) (Function.update
      (holding pageLength D s) t
        (o.inHand pageLength ((D.held (s.ctl t)).map (· / pageLength))))) :
    Owned pages pageLength D (⟨⟨queue, Function.update s.obj.op t o⟩, s.ctl, s.world⟩ :
      Sys (obj τ init) κ ω) := by
  have hupd := h.update (w := s.world) (.inr hreq) hstock (h.aligned t) hsound hexcl
  rwa [Function.update_eq_self] at hupd

theorem Owned.call_of_request (h : Owned pages pageLength D s) {t : τ} {r : Request}
    (hreq : (s.obj.op t).request = some r) : C.call (s.ctl t) = some r := by
  cases h.request t with
  | inl hidle =>
      rw [hidle] at hreq
      cases hreq
  | inr hcall => rw [hcall, hreq]

/-- A put under way works on a page in hand. -/
theorem Owned.put_spec (h : Owned pages pageLength D s) (hlen : 0 < pageLength) {t : τ}
    {kind : PageKind} {pe : PageEntry} (hop : s.obj.op t = .busy (.put kind pe)) :
    ∃ i < pages, pe.offset = i * pageLength ∧ pe.offset / pageLength = i ∧
      i ∈ holding pageLength D s t := by
  have hcall := h.call_of_request (t := t) (r := .put kind pe) (by rw [hop]; rfl)
  obtain ⟨i, hi, hoff⟩ := h.aligned t _ (D.owns hcall)
  have hidx : pe.offset / pageLength = i := by
    rw [hoff]
    exact Nat.mul_div_cancel _ hlen
  refine ⟨i, hi, hoff, hidx, ?_⟩
  have hmem : i ∈ (D.held (s.ctl t)).map (· / pageLength) :=
    Multiset.mem_map.mpr ⟨pe.offset, D.owns hcall, hidx⟩
  simpa [holding, hop, PoolOp.inHand] using hmem

/-- What a step of a call does: a failed get leaves the queues alone, any other get takes an
entry out of the queue of its kind, and a put stores its entry there. -/
inductive Served (queue : PageKind → PageEntryQueue) :
    Request → (PageKind → PageEntryQueue) → Response → Prop
  | missed {kind : PageKind} {tag : Word32} : Served queue (.get kind tag) queue (.entry none)
  | found {kind : PageKind} {tag : Word32} {pe : PageEntry} {q : PageEntryQueue}
      (hsize : q.qSize = (queue kind).qSize) (hperm : (pe :: q.toList).Perm (queue kind).toList) :
      Served queue (.get kind tag) (Function.update queue kind q) (.entry (some pe))
  | stored {kind : PageKind} {pe : PageEntry} {q : PageEntryQueue}
      (hsize : q.qSize = (queue kind).qSize) (hperm : (pe :: (queue kind).toList).Perm q.toList) :
      Served queue (.put kind pe) (Function.update queue kind q) (.status true)

theorem Owned.served (h : Owned pages pageLength D s) (hlen : 0 < pageLength) {t : τ} {r : Request}
    (hop : s.obj.op t = .busy r) (rand : Nat) :
    Served s.obj.queue r (serve s.obj.queue rand r).1 (serve s.obj.queue rand r).2 := by
  cases r with
  | get kind tag =>
      cases popRandom_cases (s.obj.queue kind) rand with
      | inl hnone =>
          simp only [serve, hnone.1, Function.update_eq_self]
          exact .missed
      | inr hsome =>
          obtain ⟨pe, hpe, hsize, hperm⟩ := hsome
          simp only [serve, hpe]
          exact .found hsize hperm
  | put kind pe =>
      obtain ⟨i, hi, -, -, hmem⟩ := h.put_spec hlen hop
      have hroom := h.stocked.room hi (h.exclusive.locked_of_mem hmem) kind
      obtain ⟨hok, hsize, hlist⟩ := PageEntryQueue.push_spec pe hroom
      simp only [serve, hok]
      refine .stored hsize ?_
      rw [hlist]
      exact List.perm_append_singleton _ _ |>.symm

theorem qSize_update {queue : PageKind → PageEntryQueue} {kind : PageKind} {q : PageEntryQueue}
    (hsize : q.qSize = (queue kind).qSize) (kind' : PageKind) :
    (Function.update queue kind q kind').qSize = (queue kind').qSize := by
  by_cases hk : kind' = kind
  · subst hk
    simpa using hsize
  · simp [hk]

/-- Putting an entry into a queue, seen in the list of all entries. -/
theorem entries_update_add (queue : PageKind → PageEntryQueue) {kind : PageKind}
    {q : PageEntryQueue} {pe : PageEntry} (h : (pe :: (queue kind).toList).Perm q.toList) :
    (pe :: entries queue).Perm (entries (Function.update queue kind q)) := by
  have hback : (pe :: (queue kind).toList).Perm (Function.update queue kind q kind).toList := by
    simpa using h
  simpa using entries_update (Function.update queue kind q) hback

/-- **One step of a call** keeps the invariant. -/
theorem Owned.serve_step (h : Owned pages pageLength D s) (hlen : 0 < pageLength) {t : τ}
    {r : Request} {queue : PageKind → PageEntryQueue} {a : Response} (hop : s.obj.op t = .busy r)
    (hserved : Served s.obj.queue r queue a) :
    Owned pages pageLength D (⟨⟨queue, Function.update s.obj.op t (.done r a)⟩, s.ctl, s.world⟩ :
      Sys (obj τ init) κ ω) := by
  have hcall : C.call (s.ctl t) = some r := h.call_of_request (by rw [hop]; rfl)
  have hhold : holding pageLength D s t = (D.held (s.ctl t)).map (· / pageLength) := by
    rw [holding, hop]
    rfl
  cases hserved with
  | missed =>
      refine h.update_op hcall h.stocked trivial ?_
      simp only [PoolOp.inHand]
      rw [← hhold, Function.update_eq_self]
      exact h.exclusive
  | @found kind tag pe q hsize hperm =>
      have hmem : pe ∈ entries s.obj.queue :=
        mem_entries.mpr ⟨kind, hperm.mem_iff.mp List.mem_cons_self⟩
      obtain ⟨i, hi, hoff⟩ := h.stocked.aligned pe hmem
      have hidx : pe.offset / pageLength = i := by
        rw [hoff]
        exact Nat.mul_div_cancel _ hlen
      have hentries := entries_update s.obj.queue hperm
      have hstock := h.stocked.remove (qSize_update hsize) hentries
      -- the page was in, and is out now
      have hin : out pageLength s.obj.queue i = false := by
        simpa [out, ← hoff] using ⟨pe, hmem, rfl⟩
      have hout : out pageLength (Function.update s.obj.queue kind q) =
          Function.update (out pageLength s.obj.queue) i true := by
        have hback := out_eq_update hlen hoff hentries
        have hnow := h.stocked.out_of_remove hoff hentries
        rw [hback, Function.update_idem, ← hnow, Function.update_eq_self]
      refine h.update_op hcall hstock ⟨i, hi, hoff⟩ ?_
      simp only [PoolOp.inHand, hidx]
      rw [hout, ← hhold]
      exact h.exclusive.acquire hi hin
  | @stored kind pe q hsize hperm =>
      obtain ⟨i, hi, hoff, hidx, hmem⟩ := h.put_spec hlen hop
      have hentries := entries_update_add s.obj.queue hperm
      have hstock := h.stocked.add hi hoff (h.exclusive.locked_of_mem hmem) (qSize_update hsize)
        hentries
      refine h.update_op hcall hstock trivial ?_
      simp only [PoolOp.inHand, hidx]
      rw [out_eq_update hlen hoff hentries, ← hhold]
      exact h.exclusive.release hmem

theorem Owned.ret (h : Owned pages pageLength D s) {t : τ} {r : Request}
    {a : Response} (hop : s.obj.op t = .done r a) :
    Owned pages pageLength D (⟨⟨s.obj.queue, Function.update s.obj.op t .idle⟩,
      Function.update s.ctl t (C.resume t (s.ctl t) a), s.world⟩ : Sys (obj τ init) κ ω) := by
  have hcall : C.call (s.ctl t) = some r := h.call_of_request (by rw [hop]; rfl)
  have hsound := h.sound t
  rw [hop] at hsound
  -- the program has in hand what the answer says
  have hkeep {k : κ} (hal : ∀ x ∈ D.held k, ∃ i < pages, x = i * pageLength)
      (hhand : (D.held k).map (· / pageLength) = holding pageLength D s t) :
      Owned pages pageLength D (⟨⟨s.obj.queue, Function.update s.obj.op t .idle⟩,
        Function.update s.ctl t k, s.world⟩ : Sys (obj τ init) κ ω) := by
    refine h.update (.inl rfl) h.stocked hal trivial ?_
    simp only [PoolOp.inHand]
    rw [hhand, Function.update_eq_self]
    exact h.exclusive
  cases r with
  | get kind tag =>
      cases a with
      | entry pe =>
          cases pe with
          | none =>
              have hheld := D.missed (t := t) hcall
              refine hkeep (by rw [hheld]; exact h.aligned t) ?_
              rw [hheld, holding, hop]
              rfl
          | some pe =>
              have hheld : D.held (C.resume t (s.ctl t) (.entry (some pe))) =
                  pe.offset ::ₘ D.held (s.ctl t) := D.got hcall
              refine hkeep (fun x hx => ?_) ?_
              · rw [hheld] at hx
                cases Multiset.mem_cons.mp hx with
                | inl heq =>
                    obtain ⟨i, hi, hoff⟩ := hsound
                    exact ⟨i, hi, heq.trans hoff⟩
                | inr hx => exact h.aligned t x hx
              · rw [hheld, holding, hop, Multiset.map_cons]
                rfl
      | status ok => exact hsound.elim
  | put kind pe =>
      cases a with
      | entry pe' => exact hsound.elim
      | status ok =>
          cases ok with
          | true =>
              have hheld := D.gave (t := t) hcall
              refine hkeep (fun x hx => ?_) ?_
              · rw [hheld] at hx
                exact h.aligned t x (Multiset.mem_of_mem_erase hx)
              · rw [hheld, holding, hop]
                exact Multiset.map_erase_of_mem _ _ (D.owns hcall)
          | false =>
              have hheld := D.kept (t := t) hcall
              refine hkeep (by rw [hheld]; exact h.aligned t) ?_
              rw [hheld, holding, hop]
              rfl

/-- Every page is in one of the queues, once. -/
def Full (pages pageLength : Nat) (queue : PageKind → PageEntryQueue) : Prop :=
  Stocked pages pageLength queue ∧ ∀ i < pages, out pageLength queue i = false

theorem owned_of_initial (D : Discipline C) (hfull : ∀ queue, init queue → Full pages pageLength queue)
    {s : Sys (obj τ init) κ ω} (h : Initial (obj τ init) C s) : Owned pages pageLength D s := by
  obtain ⟨⟨hinit, hidle⟩, hctl⟩ := h
  obtain ⟨hstock, hin⟩ := hfull _ hinit
  have hhold : ∀ t, holding pageLength D s t = 0 := by
    intro t
    rw [holding, hidle t, D.init hctl t]
    rfl
  refine ⟨fun t => .inl (hidle t), hstock, fun t o ho => ?_, fun t => ?_, ?_, ?_, ?_, ?_⟩
  · rw [D.init hctl t] at ho
    exact absurd ho (Multiset.notMem_zero o)
  · rw [hidle t]
    trivial
  · intro t i hi
    rw [hhold t] at hi
    exact absurd hi (Multiset.notMem_zero i)
  · intro t
    rw [hhold t]
    exact Multiset.nodup_zero
  · intro t t' i hi
    rw [hhold t] at hi
    exact absurd hi (Multiset.notMem_zero i)
  · intro i hi
    rw [hin i hi]
    refine iff_of_false (by decide) ?_
    intro hex
    obtain ⟨t, ht⟩ := hex
    rw [hhold t] at ht
    exact absurd ht (Multiset.notMem_zero i)

/-- **Every step keeps the invariant.** -/
theorem Owned.step (h : Owned pages pageLength D s) (hlen : 0 < pageLength)
    {s' : Sys (obj τ init) κ ω} (hstep : Step (obj τ init) C s s') : Owned pages pageLength D s' := by
  cases hstep with
  | @call t r _ hcall ho =>
      obtain ⟨hidle, rfl⟩ := ho
      refine h.update_op hcall h.stocked trivial ?_
      have hhold : holding pageLength D s t = (D.held (s.ctl t)).map (· / pageLength) := by
        rw [holding, hidle]
        rfl
      simp only [PoolOp.inHand]
      rw [← hhold, Function.update_eq_self]
      exact h.exclusive
  | @obj t _ ho =>
      obtain ⟨r, rand, -, hop, rfl⟩ := ho
      exact h.serve_step hlen hop (h.served hlen hop rand)
  | @ret t a _ ho =>
      obtain ⟨r, hop, rfl⟩ := ho
      exact h.ret hop
  | @loc t k w hcall hs =>
      have hidle : s.obj.op t = .idle := by
        cases h.request t with
        | inl hidle => exact hidle
        | inr hreq =>
            rw [hcall] at hreq
            cases ho : s.obj.op t with
            | idle => rfl
            | busy r => exact absurd hreq (by simp [ho, PoolOp.request])
            | done r a => exact absurd hreq (by simp [ho, PoolOp.request])
      have hheld := D.step hcall hs
      have hupd := h.update (w := w) (o := .idle) (k := k) (t := t) (.inl rfl) h.stocked
        (by rw [hheld]; exact h.aligned t) trivial (by
          have hhold : holding pageLength D s t = (D.held (s.ctl t)).map (· / pageLength) := by
            rw [holding, hidle]
            rfl
          simp only [PoolOp.inHand]
          rw [hheld, ← hhold, Function.update_eq_self]
          exact h.exclusive)
      rwa [← hidle, Function.update_eq_self] at hupd
  | env hs => exact ⟨h.request, h.stocked, h.aligned, h.sound, h.exclusive⟩

theorem owned_of_reachable (D : Discipline C) (hlen : 0 < pageLength)
    (hfull : ∀ queue, init queue → Full pages pageLength queue) {s : Sys (obj τ init) κ ω}
    (h : Reachable (obj τ init) C s) : Owned pages pageLength D s :=
  h.inv (fun _ hs => owned_of_initial D hfull hs) fun _ _ hs hstep => hs.step hlen hstep

/-! ## The pool -/

/-- The page at index `i`, if a queue lists it. -/
def slot (pageLength : Nat) (queue : PageKind → PageEntryQueue) (i : Nat) : Option Slot :=
  match (queue .valid).toList.find? (·.offset == i * pageLength) with
  | some pe => some (.valid, pe.pattern)
  | none => ((queue .empty).toList.find? (·.offset == i * pageLength)).map fun pe =>
      (.empty, pe.pattern)

theorem find?_offset {l : List PageEntry} {o : Nat} {pe : PageEntry}
    (h : l.find? (·.offset == o) = some pe) : pe ∈ l ∧ pe.offset = o :=
  ⟨List.mem_of_find?_eq_some h, by simpa using List.find?_some h⟩

theorem slot_eq_some_iff {queue : PageKind → PageEntryQueue} (h : Stocked pages pageLength queue)
    {i : Nat} {kind : PageKind} {p : Option Pattern} :
    slot pageLength queue i = some (kind, p) ↔
      ∃ pe ∈ (queue kind).toList, pe.offset = i * pageLength ∧ pe.pattern = p := by
  -- whatever is found under the offset is the only entry there
  have hfound {kind' : PageKind} {pe : PageEntry}
      (hf : (queue kind').toList.find? (·.offset == i * pageLength) = some pe) :
      some (kind', pe.pattern) = some (kind, p) ↔
        ∃ pe ∈ (queue kind).toList, pe.offset = i * pageLength ∧ pe.pattern = p := by
    obtain ⟨hmem, hoff⟩ := find?_offset hf
    constructor
    · intro heq
      obtain ⟨rfl, rfl⟩ := Prod.mk.inj (Option.some.inj heq)
      exact ⟨pe, hmem, hoff, rfl⟩
    · rintro ⟨pe', hmem', hoff', rfl⟩
      obtain ⟨rfl, rfl⟩ := h.unique hmem hmem' (hoff.trans hoff'.symm)
      rfl
  unfold slot
  split
  · next pe hf => exact hfound hf
  · next hnone =>
    cases hf : (queue .empty).toList.find? (·.offset == i * pageLength) with
    | some pe => exact hfound hf
    | none =>
        refine iff_of_false (by simp) ?_
        rintro ⟨pe, hmem, hoff, -⟩
        rw [List.find?_eq_none] at hnone hf
        cases kind with
        | valid => exact hnone pe hmem (by simpa using hoff)
        | empty => exact hf pe hmem (by simpa using hoff)

theorem slot_eq_none_iff {queue : PageKind → PageEntryQueue} (h : Stocked pages pageLength queue)
    {i : Nat} : slot pageLength queue i = none ↔ out pageLength queue i = true := by
  rw [Option.eq_none_iff_forall_ne_some, out, decide_eq_true_eq]
  constructor
  · intro hnone hmem
    obtain ⟨pe, hpe, hoff⟩ := List.mem_map.mp hmem
    obtain ⟨kind, hkind⟩ := mem_entries.mp hpe
    exact hnone (kind, pe.pattern) ((slot_eq_some_iff h).mpr ⟨pe, hkind, hoff, rfl⟩)
  · rintro hnot ⟨kind, p⟩ hsome
    obtain ⟨pe, hmem, hoff, -⟩ := (slot_eq_some_iff h).mp hsome
    exact hnot (List.mem_map.mpr ⟨pe, mem_entries.mpr ⟨kind, hmem⟩, hoff⟩)

/-- An entry more is a page more in the pool. -/
theorem slot_update {queue : PageKind → PageEntryQueue} (kind : PageKind) {q : PageEntryQueue}
    {pe : PageEntry} {i : Nat} (hlen : 0 < pageLength) (h : Stocked pages pageLength queue)
    (h' : Stocked pages pageLength (Function.update queue kind q))
    (hperm : (pe :: (queue kind).toList).Perm q.toList) (hoff : pe.offset = i * pageLength) :
    slot pageLength (Function.update queue kind q) =
      Function.update (slot pageLength queue) i (some (kind, pe.pattern)) := by
  funext j
  by_cases hji : j = i
  · subst hji
    rw [Function.update_self, slot_eq_some_iff h', Function.update_self]
    exact ⟨pe, hperm.mem_iff.mp List.mem_cons_self, hoff, rfl⟩
  · rw [Function.update_of_ne hji]
    apply Option.ext
    rintro ⟨kind', p⟩
    rw [slot_eq_some_iff h', slot_eq_some_iff h]
    refine exists_congr fun pe' => and_congr_left fun hpe' => ?_
    by_cases hk : kind' = kind
    · subst hk
      rw [Function.update_self, ← hperm.mem_iff, List.mem_cons]
      refine or_iff_right ?_
      rintro rfl
      have hmul : j * pageLength = i * pageLength := hpe'.1.symm.trans hoff
      exact hji (Nat.eq_of_mul_eq_mul_right hlen hmul)
    · rw [Function.update_of_ne hk]

/-- The pool the queues stand for. -/
def toPool {τ : Type} (pageLength : Nat) (s : State τ) : PoolState τ :=
  ⟨slot pageLength s.queue, s.op⟩

/-- **Refinement.** Every behaviour of the queues is one of the pool. -/
def simulation (D : Discipline C) (hlen : 0 < pageLength) :
    Simulation (obj τ init)
      (poolObj pages pageLength τ fun x => ∃ queue, init queue ∧ x = slot pageLength queue) C
      (Owned pages pageLength D) where
  map := toPool pageLength
  init a h := ⟨⟨a.queue, h.1, rfl⟩, h.2⟩
  call {s t r o} _ _ ho := by
    obtain ⟨hidle, rfl⟩ := ho
    exact ⟨hidle, _, rfl, .inl rfl⟩
  step {s t o} h ho := by
    obtain ⟨r, rand, -, hop, rfl⟩ := ho
    right
    have hserved := h.served hlen hop rand
    have hnext := h.serve_step hlen hop hserved
    generalize (serve s.obj.queue rand r).1 = queue at hserved hnext ⊢
    generalize (serve s.obj.queue rand r).2 = a at hserved hnext ⊢
    have hstock' : Stocked pages pageLength queue := hnext.stocked
    cases hserved with
    | missed => exact .missed hop
    | @found kind tag pe q hsize hperm =>
        obtain ⟨i, hi, hoff⟩ : PoolOp.Sound pages pageLength (.done (.get kind tag) (.entry (some pe))) := by
          simpa using hnext.sound t
        have hqueue : Function.update (Function.update s.obj.queue kind q) kind (s.obj.queue kind) =
            s.obj.queue := by simp
        have hslot : slot pageLength s.obj.queue = Function.update
            (slot pageLength (Function.update s.obj.queue kind q)) i (some (kind, pe.pattern)) := by
          have hadd := slot_update kind hlen hstock' (q := s.obj.queue kind)
            (by rw [hqueue]; exact h.stocked) (by simpa using hperm) hoff
          rwa [hqueue] at hadd
        have hout := (slot_eq_none_iff hstock').mpr
          (h.stocked.out_of_remove hoff (entries_update s.obj.queue hperm))
        have hgone : slot pageLength (Function.update s.obj.queue kind q) =
            Function.update (slot pageLength s.obj.queue) i none := by
          rw [hslot, Function.update_idem, ← hout, Function.update_eq_self]
        have hpool : toPool pageLength (⟨Function.update s.obj.queue kind q,
            Function.update s.obj.op t (.done (.get kind tag) (.entry (some pe)))⟩ : State τ) =
            ⟨Function.update (slot pageLength s.obj.queue) i none,
              Function.update s.obj.op t (.done (.get kind tag) (.entry (some pe)))⟩ :=
          PoolState.ext hgone rfl
        rw [hpool]
        refine .found hop ?_ hoff
        change slot pageLength s.obj.queue i = _
        rw [hslot, Function.update_self]
    | @stored kind pe q hsize hperm =>
        obtain ⟨i, hi, hoff, hidx, hmem⟩ := h.put_spec hlen hop
        have hout := (slot_eq_none_iff h.stocked).mpr (h.exclusive.locked_of_mem hmem)
        have hslot := slot_update kind hlen h.stocked hstock' hperm hoff
        have hpool : toPool pageLength (⟨Function.update s.obj.queue kind q,
            Function.update s.obj.op t (.done (.put kind pe) (.status true))⟩ : State τ) =
            ⟨Function.update (slot pageLength s.obj.queue) i (some (kind, pe.pattern)),
              Function.update s.obj.op t (.done (.put kind pe) (.status true))⟩ :=
          PoolState.ext hslot rfl
        rw [hpool]
        exact .stored hop hi hoff hout fun _ => rfl
  ret {s t a o} _ ho := by
    obtain ⟨r, hdone, rfl⟩ := ho
    exact ⟨r, hdone, rfl⟩

/-- The pool the queues stand for is reached by the same workers. -/
theorem pool_reachable (D : Discipline C) (hlen : 0 < pageLength)
    (hfull : ∀ queue, init queue → Full pages pageLength queue) {s : Sys (obj τ init) κ ω}
    (h : Reachable (obj τ init) C s) :
    Reachable
      (poolObj pages pageLength τ fun x => ∃ queue, init queue ∧ x = slot pageLength queue) C
      ⟨toPool pageLength s.obj, s.ctl, s.world⟩ :=
  (simulation D hlen).reachable (fun _ hs => owned_of_reachable D hlen hfull hs) h

end Owned

end StressAppTest.OneLock
