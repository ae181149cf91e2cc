import StressAppTest.Disk.AsyncDiskIO

/-!
# The requests in flight

A request is in flight, or answered and not reaped, only in the context that its thread has now, and only
while the thread is between `io_submit` and the end of `io_destroy`. So the kernel touches no buffer
outside `AsyncDiskIO`, and the event that `io_getevents` gives is that of the request made last.

`ThreadOk` says this of one thread and its contexts. A step of a thread changes its own contexts only
(`Inv.ofThread`).
-/

namespace StressAppTest.Disk.Async

open Descriptors

/-- The request that the thread waits for. -/
def Place.waiting : Place → Option Iocb
  | .getEvents cb | .cancel cb | .destroy cb => some cb
  | _ => none

/-- `aio_ctx_` is the last context that the thread has made, or 0. -/
def Place.live : Place → Bool
  | .doWork | .getEvents _ | .cancel _ | .destroy _ | .returned _ _ | .destroyLast => true
  | _ => false

/-- The places that are reached by a call on a context, or by one that has succeeded, have more to be
shown. -/
def Place.plain : Place → Bool
  | .renew _ | .returned _ true => false
  | _ => true

variable {ι δ β : Type} {disk : Device ι β} {clock : Nat} {i : ι} {t : Thread β} {cb : Iocb}

/-- Byte `j` of a request has been moved. A byte that was written may have been written again by another
thread, and one that was read may have been written after the request was made. -/
def Landed (disk : Device ι β) (i : ι) (t : Thread β) (cb : Iocb) (j : Nat) : Prop :=
  match cb.op with
  | .read => t.buffer j = disk.byte (cb.offset + j) ∨ t.since < disk.stamp (cb.offset + j)
  | .write => ∃ i', disk.author (cb.offset + j) = some i' ∧
      (i' = i → disk.byte (cb.offset + j) = t.buffer j)

/-- What context `n` of a thread holds: nothing, or the request that it waits for, or its answer. -/
inductive Mail (disk : Device ι β) (i : ι) (t : Thread β) (n : Nat) (requests : List (Request ι))
    (events : List (IoEvent ι)) : Prop
  | empty (hrequests : requests = []) (hevents : events = [])
  | request (cb : Iocb) (moved : List Nat) (hwaiting : t.place.waiting = some cb) (hcurrent : n = t.setups)
      (hrequests : requests = [⟨i, cb, moved⟩]) (hevents : events = [])
      (hmoved : ∀ j ∈ moved, Landed disk i t cb j)
  | event (cb : Iocb) (res : Int) (hwaiting : t.place.waiting = some cb) (hcurrent : n = t.setups)
      (hrequests : requests = []) (hevents : events = [⟨i, cb, res⟩])
      (hmoved : res = cb.nbytes → ∀ j < cb.nbytes, Landed disk i t cb j)

/-- What holds of a thread and its contexts. -/
structure ThreadOk (disk : Device ι β) (clock : Nat) (i : ι) (t : Thread β) (life : Nat → Life)
    (requests : Nat → List (Request ι)) (events : Nat → List (IoEvent ι)) : Prop where
  current : t.place.live = true → t.aioCtx ≠ 0 → 0 < t.setups ∧ life t.setups = .opened t.aioCtx
  closed : ∀ n, 0 < n → n ≤ t.setups → (t.place.live = true → t.aioCtx ≠ 0 → n ≠ t.setups) →
    (life n).isClosed = true
  unborn : ∀ n, t.setups < n → life n = .unborn
  waiting : t.place.waiting.isSome → t.aioCtx ≠ 0
  renew : ∀ cb, t.place = .renew cb → t.aioCtx = 0
  mail : ∀ n, Mail disk i t n (requests n) (events n)
  returned : ∀ cb, t.place = .returned cb true → ∀ j < cb.nbytes, Landed disk i t cb j
  since : t.since ≤ clock

/-! ## A thread -/

section Thread

variable {life : Nat → Life} {requests : Nat → List (Request ι)} {events : Nat → List (IoEvent ι)}

theorem live_of_waiting {place : Place} (h : place.waiting.isSome) : place.live = true := by
  cases place <;> first | rfl | cases h

/-- A thread that does not wait has no request in flight. -/
theorem ThreadOk.quiet (h : ThreadOk disk clock i t life requests events)
    (hwaiting : t.place.waiting = none) (n : Nat) : requests n = [] ∧ events n = [] := by
  cases h.mail n with
  | empty hrequests hevents => exact ⟨hrequests, hevents⟩
  | request cb moved hcb => rw [hwaiting] at hcb; cases hcb
  | event cb res hcb => rw [hwaiting] at hcb; cases hcb

/-- Nothing is left in the contexts before the last. -/
theorem ThreadOk.old (h : ThreadOk disk clock i t life requests events) {n : Nat} (hn : n ≠ t.setups) :
    requests n = [] ∧ events n = [] := by
  cases h.mail n with
  | empty hrequests hevents => exact ⟨hrequests, hevents⟩
  | request cb moved hcb hcurrent => exact absurd hcurrent hn
  | event cb res hcb hcurrent => exact absurd hcurrent hn

theorem Landed.congr {t' : Thread β} {j : Nat} (h : Landed disk i t cb j) (hbuffer : t'.buffer = t.buffer)
    (hsince : t'.since = t.since) : Landed disk i t' cb j := by
  unfold Landed at h ⊢
  rwa [hbuffer, hsince]

/-- The thread goes on waiting. -/
theorem Mail.congr {t' : Thread β} {n : Nat} {requests : List (Request ι)} {events : List (IoEvent ι)}
    (h : Mail disk i t n requests events) (hwaiting : t'.place.waiting = t.place.waiting)
    (hsetups : t'.setups = t.setups) (hbuffer : t'.buffer = t.buffer) (hsince : t'.since = t.since) :
    Mail disk i t' n requests events := by
  cases h with
  | empty hrequests hevents => exact .empty hrequests hevents
  | request cb moved hcb hcurrent hrequests hevents hmoved =>
      exact .request cb moved (hwaiting.trans hcb) (hcurrent.trans hsetups.symm) hrequests hevents
        fun j hj => (hmoved j hj).congr hbuffer hsince
  | event cb res hcb hcurrent hrequests hevents hmoved =>
      exact .event cb res (hwaiting.trans hcb) (hcurrent.trans hsetups.symm) hrequests hevents
        fun hres j hj => (hmoved hres j hj).congr hbuffer hsince

/-- The contexts of a thread that goes on with the same context. -/
theorem ThreadOk.keep (h : ThreadOk disk clock i t life requests events) (t' : Thread β)
    (hlive : t'.place.live = t.place.live ∨ t.aioCtx = 0) (hctx : t'.aioCtx = t.aioCtx)
    (hsetups : t'.setups = t.setups) (hwaiting : t'.place.waiting.isSome → t.aioCtx ≠ 0)
    {requests' : Nat → List (Request ι)} {events' : Nat → List (IoEvent ι)}
    (hmail : ∀ n, Mail disk i t' n (requests' n) (events' n))
    (hrenew : ∀ cb, t'.place = .renew cb → t.aioCtx = 0)
    (hreturned : ∀ cb, t'.place = .returned cb true → ∀ j < cb.nbytes, Landed disk i t' cb j)
    (hsince : t'.since ≤ clock) : ThreadOk disk clock i t' life requests' events' where
  current hlive' hne := by
    rw [hctx] at hne ⊢
    rw [hsetups]
    rcases hlive with hlive | hzero
    · exact h.current (hlive ▸ hlive') hne
    · exact absurd hzero hne
  closed n hpos hn hold := by
    rw [hsetups] at hn
    refine h.closed n hpos hn fun hlive' hne => ?_
    rw [hctx, hsetups] at hold
    rcases hlive with hlive | hzero
    · exact hold (hlive.trans hlive') hne
    · exact absurd hzero hne
  unborn n hn := h.unborn n (hsetups ▸ hn)
  waiting hsome := by
    rw [hctx]
    exact hwaiting hsome
  renew cb hcb := hctx.trans (hrenew cb hcb)
  mail := hmail
  returned := hreturned
  since := hsince

/-- A step outside the window, after which no call has just succeeded. -/
theorem ThreadOk.quietStep (h : ThreadOk disk clock i t life requests events) (t' : Thread β)
    (hquiet : t.place.waiting = none) (hquiet' : t'.place.waiting = none)
    (hlive : t'.place.live = t.place.live ∨ t.aioCtx = 0) (hctx : t'.aioCtx = t.aioCtx)
    (hsetups : t'.setups = t.setups) (hsince : t'.since = t.since)
    (hplain : t'.place.plain = true) : ThreadOk disk clock i t' life requests events := by
  refine h.keep t' hlive hctx hsetups (by rw [hquiet']; exact nofun) (fun n => ?_)
    (fun cb hcb => by rw [hcb] at hplain; cases hplain)
    (fun cb hcb => by rw [hcb] at hplain; cases hplain) (hsince ▸ h.since)
  obtain ⟨hrequests, hevents⟩ := h.quiet hquiet n
  exact .empty hrequests hevents

/-- A step inside the window. -/
theorem ThreadOk.waitStep (h : ThreadOk disk clock i t life requests events) (t' : Thread β)
    (hwaiting : t'.place.waiting = t.place.waiting) (hsome : t.place.waiting.isSome)
    (hctx : t'.aioCtx = t.aioCtx) (hsetups : t'.setups = t.setups) (hbuffer : t'.buffer = t.buffer)
    (hsince : t'.since = t.since) : ThreadOk disk clock i t' life requests events := by
  have hlive : t'.place.live = t.place.live :=
    (live_of_waiting (hwaiting ▸ hsome)).trans (live_of_waiting hsome).symm
  refine h.keep t' (Or.inl hlive) hctx hsetups (fun _ => h.waiting hsome)
    (fun n => (h.mail n).congr hwaiting hsetups hbuffer hsince) (fun cb hcb => ?_) (fun cb hcb => ?_)
    (hsince ▸ h.since)
  · rw [← hwaiting, hcb] at hsome
    cases hsome
  · rw [← hwaiting, hcb] at hsome
    cases hsome

/-- The disk has changed. -/
theorem ThreadOk.atDisk (h : ThreadOk disk clock i t life requests events) (disk' : Device ι β)
    {clock' : Nat} (hclock : clock ≤ clock')
    (hlanded : ∀ cb j, Landed disk i t cb j →
      t.place.waiting = some cb ∨ t.place.waiting = none → Landed disk' i t cb j) :
    ThreadOk disk' clock' i t life requests events where
  current := h.current
  closed := h.closed
  unborn := h.unborn
  waiting := h.waiting
  renew := h.renew
  mail n := by
    cases h.mail n with
    | empty hrequests hevents => exact .empty hrequests hevents
    | request cb moved hcb hcurrent hrequests hevents hmoved =>
        exact .request cb moved hcb hcurrent hrequests hevents
          fun j hj => hlanded cb j (hmoved j hj) (Or.inl hcb)
    | event cb res hcb hcurrent hrequests hevents hmoved =>
        exact .event cb res hcb hcurrent hrequests hevents
          fun hres j hj => hlanded cb j (hmoved hres j hj) (Or.inl hcb)
  returned cb hcb j hj := hlanded cb j (h.returned cb hcb j hj) (Or.inr (by rw [hcb]; rfl))
  since := Nat.le_trans h.since hclock

/-- A thread without a context. -/
theorem ThreadOk.dead (hdead : t.place.live = false)
    (hclosed : ∀ n, 0 < n → n ≤ t.setups → (life n).isClosed = true)
    (hunborn : ∀ n, t.setups < n → life n = .unborn) (hrequests : ∀ n, requests n = [])
    (hevents : ∀ n, events n = []) (hrenew : ∀ cb, t.place = .renew cb → t.aioCtx = 0)
    (hsince : t.since ≤ clock) :
    ThreadOk disk clock i t life requests events where
  current hlive := by
    rw [hdead] at hlive
    cases hlive
  closed n hpos hn _ := hclosed n hpos hn
  unborn := hunborn
  waiting hsome := by
    rw [live_of_waiting hsome] at hdead
    cases hdead
  renew := hrenew
  mail n := .empty (hrequests n) (hevents n)
  returned cb hcb := by
    rw [hcb] at hdead
    cases hdead
  since := hsince

end Thread

/-! ## The threads -/

/-- Every call on a context has hit that of its caller, and every thread is in order. -/
structure Inv (device : ι → δ) (s : System ι δ β) [DecidableEq ι] : Prop where
  consistent : Consistent s.kernel
  sound : Sound s.kernel
  zero : s.kernel.file 0 = none
  thread : ∀ i, ThreadOk (s.disk (device i)) s.clock i (s.thread i) (fun n => s.kernel.life (i, n))
    (fun n => s.requests (i, n)) (fun n => s.events (i, n))

theorem other_context {i' : ι} (hi : i' ≠ i) (n m : Nat) : ((i', n) : Context ι) ≠ (i, m) :=
  fun heq => hi (congrArg Prod.fst heq)

section Inv

variable [DecidableEq ι] {device : ι → δ} {s s' : System ι δ β}

theorem System.Initial.inv (h : s.Initial) : Inv device s where
  consistent := h.consistent
  sound := by
    rw [Sound, h.calls]
    exact nofun
  zero := by
    cases hfile : s.kernel.file 0 with
    | none => rfl
    | some d =>
        have hopened := (h.consistent.file_iff 0 d).mp hfile
        rw [h.life] at hopened
        cases hopened
  thread i :=
    { current := by rw [h.place]; exact nofun
      closed := by
        intro n hpos hn
        rw [h.setups] at hn
        omega
      unborn := fun n _ => h.life (i, n)
      waiting := by rw [h.place]; exact nofun
      renew := by rw [h.place]; exact nofun
      mail := fun n => .empty (h.requests (i, n)) (h.events (i, n))
      returned := by rw [h.place]; exact nofun
      since := by rw [h.since]; exact Nat.zero_le _ }

/-- A step that concerns one thread and its contexts. -/
theorem Inv.ofThread (h : Inv device s) (hthread : ∀ i' ≠ i, s'.thread i' = s.thread i')
    (hlife : ∀ i' ≠ i, ∀ n, s'.kernel.life (i', n) = s.kernel.life (i', n))
    (hrequests : ∀ i' ≠ i, ∀ n, s'.requests (i', n) = s.requests (i', n))
    (hevents : ∀ i' ≠ i, ∀ n, s'.events (i', n) = s.events (i', n)) (hdisk : s'.disk = s.disk)
    (hclock : s'.clock = s.clock) (hconsistent : Consistent s'.kernel) (hsound : Sound s'.kernel)
    (hzero : s'.kernel.file 0 = none)
    (hok : ThreadOk (s.disk (device i)) s.clock i (s'.thread i) (fun n => s'.kernel.life (i, n))
      (fun n => s'.requests (i, n)) (fun n => s'.events (i, n))) : Inv device s' := by
  refine ⟨hconsistent, hsound, hzero, fun i' => ?_⟩
  rw [hdisk, hclock]
  by_cases hi : i' = i
  · rw [hi]
    exact hok
  · rw [hthread i' hi, funext (hlife i' hi), funext (hrequests i' hi), funext (hevents i' hi)]
    exact h.thread i'

theorem Inv.setThread (h : Inv device s) (hok : ThreadOk (s.disk (device i)) s.clock i t
    (fun n => s.kernel.life (i, n)) (fun n => s.requests (i, n)) (fun n => s.events (i, n))) :
    Inv device (s.setThread i t) := by
  refine h.ofThread (i := i) (fun i' hi => Function.update_of_ne hi ..) (fun _ _ _ => rfl)
    (fun _ _ _ => rfl) (fun _ _ _ => rfl) rfl rfl h.consistent h.sound h.zero ?_
  rw [show (s.setThread i t).thread i = t from Function.update_self ..]
  exact hok

/-- A step of a thread outside the window. -/
theorem Inv.goto (h : Inv device s) {place : Place} (hquiet : (s.thread i).place.waiting = none)
    (hquiet' : place.waiting = none)
    (hlive : place.live = (s.thread i).place.live ∨ (s.thread i).aioCtx = 0)
    (hplain : place.plain = true) : Inv device (s.goto i place) :=
  h.setThread ((h.thread i).quietStep _ hquiet hquiet' hlive rfl rfl rfl hplain)

/-- The context of a thread. -/
theorem Inv.file (h : Inv device s) (hlive : (s.thread i).place.live = true)
    (hne : (s.thread i).aioCtx ≠ 0) :
    s.kernel.life (i, (s.thread i).setups) = .opened (s.thread i).aioCtx ∧
      s.kernel.file (s.thread i).aioCtx = some (i, (s.thread i).setups) := by
  have hlife := ((h.thread i).current hlive hne).2
  exact ⟨hlife, h.consistent.file_of_opened hlife⟩

/-- A call that uses the context. -/
theorem Inv.use (h : Inv device s) (hlive : (s.thread i).place.live = true)
    (hne : (s.thread i).aioCtx ≠ 0) (way : Way) : Inv device (s.call i (.use way)) := by
  refine ⟨h.consistent.call .., h.sound.call h.consistent _ (h.file hlive hne).1, h.zero, ?_⟩
  intro i'
  change ThreadOk _ _ _ _ (fun n => (s.kernel.call (.use way) _ _).life (i', n)) _ _
  rw [life_call_use rfl]
  exact h.thread i'

/-- A step of a thread that changes what its context holds. -/
theorem Inv.post (h : Inv device s) (t : Thread β) (requests : List (Request ι))
    (events : List (IoEvent ι))
    (hok : ThreadOk (s.disk (device i)) s.clock i t (fun n => s.kernel.life (i, n))
      (Function.update (fun n => s.requests (i, n)) (s.thread i).setups requests)
      (Function.update (fun n => s.events (i, n)) (s.thread i).setups events)) :
    Inv device { s.setThread i t with
      requests := Function.update s.requests (i, (s.thread i).setups) requests
      events := Function.update s.events (i, (s.thread i).setups) events } := by
  refine h.ofThread (i := i) (fun i' hi => Function.update_of_ne hi ..) (fun _ _ _ => rfl)
    (fun i' hi n => Function.update_of_ne (other_context hi _ _) ..)
    (fun i' hi n => Function.update_of_ne (other_context hi _ _) ..) rfl rfl h.consistent h.sound h.zero ?_
  have hpair {γ : Type} (f : Context ι → γ) (m : Nat) (v : γ) :
      (fun n => Function.update f (i, m) v (i, n)) = Function.update (fun n => f (i, n)) m v := by
    funext n
    by_cases hn : n = m
    · subst hn
      rw [Function.update_self, Function.update_self]
    · rw [Function.update_of_ne hn, Function.update_of_ne fun heq => hn (congrArg Prod.snd heq)]
  change ThreadOk _ _ _ (Function.update s.thread i t i) _
    (fun n => Function.update s.requests (i, _) _ (i, n)) fun n => Function.update s.events (i, _) _ (i, n)
  rw [Function.update_self, hpair, hpair]
  exact hok

/-- The same with the requests only. -/
theorem Inv.postRequests (h : Inv device s) (t : Thread β) (requests : List (Request ι))
    (hok : ThreadOk (s.disk (device i)) s.clock i t (fun n => s.kernel.life (i, n))
      (Function.update (fun n => s.requests (i, n)) (s.thread i).setups requests)
      fun n => s.events (i, n)) :
    Inv device { s.setThread i t with
      requests := Function.update s.requests (i, (s.thread i).setups) requests } := by
  have hposted := h.post (i := i) t requests (s.events (i, (s.thread i).setups)) (by
    rw [Function.update_eq_self (s.thread i).setups fun n => s.events (i, n)]
    exact hok)
  rwa [Function.update_eq_self] at hposted

/-- The same with the events only. -/
theorem Inv.postEvents (h : Inv device s) (t : Thread β) (events : List (IoEvent ι))
    (hok : ThreadOk (s.disk (device i)) s.clock i t (fun n => s.kernel.life (i, n))
      (fun n => s.requests (i, n))
      (Function.update (fun n => s.events (i, n)) (s.thread i).setups events)) :
    Inv device { s.setThread i t with
      events := Function.update s.events (i, (s.thread i).setups) events } := by
  have hposted := h.post (i := i) t (s.requests (i, (s.thread i).setups)) events (by
    rw [Function.update_eq_self (s.thread i).setups fun n => s.requests (i, n)]
    exact hok)
  rwa [Function.update_eq_self] at hposted

/-- `io_setup` -/
theorem Inv.setup (h : Inv device s) {ctx : Nat} {place : Place} (hdead : (s.thread i).place.live = false)
    (hlive : place.live = true) (hquiet : place.waiting = none) (hplain : place.plain = true)
    (hnext : s.setup i ctx place = some s') :
    Inv device s' := by
  rw [System.setup] at hnext
  split at hnext
  case isFalse => cases hnext
  case isTrue hctx =>
    obtain ⟨hne, hfree⟩ := hctx
    obtain rfl := Option.some.inj hnext
    have hthread := h.thread i
    have hdeadQuiet : (s.thread i).place.waiting = none := by
      by_contra hcon
      rw [live_of_waiting (Option.isSome_iff_ne_none.mpr hcon)] at hdead
      cases hdead
    have hnew : s.kernel.life (i, (s.thread i).setups + 1) = .unborn :=
      hthread.unborn _ (Nat.lt_succ_self _)
    have hlife (n : Nat) : (s.kernel.openAt ctx (i, (s.thread i).setups + 1)).life (i, n) =
        if n = (s.thread i).setups + 1 then .opened ctx else s.kernel.life (i, n) := by
      split
      · next hn =>
        rw [hn]
        exact life_openAt_self
      · next hn => exact life_openAt_of_ne fun heq => hn (congrArg Prod.snd heq)
    refine h.ofThread (i := i) (fun i' hi => Function.update_of_ne hi ..)
      (fun i' hi n => life_openAt_of_ne (other_context hi _ _)) (fun _ _ _ => rfl) (fun _ _ _ => rfl) rfl rfl
      (h.consistent.openAt hfree hnew) (h.sound.openAt _ _)
      ((Function.update_of_ne (Ne.symm hne) ..).trans h.zero) ?_
    change ThreadOk _ _ _ (Function.update s.thread i _ i) _ _ _
    rw [Function.update_self]
    refine
      { current := fun _ _ => ⟨Nat.succ_pos _, ?_⟩
        closed := fun n hpos hn hold => ?_
        unborn := fun n hn => ?_
        waiting := by rw [hquiet]; exact nofun
        renew := fun cb hcb => by rw [show place = .renew cb from hcb] at hplain; cases hplain
        mail := fun n => .empty (hthread.quiet hdeadQuiet n).1 (hthread.quiet hdeadQuiet n).2
        returned := fun cb hcb => by rw [show place = .returned cb true from hcb] at hplain; cases hplain
        since := hthread.since }
    · exact (hlife _).trans (if_pos rfl)
    · have hlast : n ≠ (s.thread i).setups + 1 := hold hlive hne
      change ((s.kernel.openAt ctx (i, (s.thread i).setups + 1)).life (i, n)).isClosed = true
      rw [hlife, if_neg hlast]
      refine hthread.closed n hpos (by change n ≤ (s.thread i).setups + 1 at hn; omega) fun hcon => ?_
      rw [hdead] at hcon
      cases hcon
    · change (s.thread i).setups + 1 < n at hn
      change (s.kernel.openAt ctx (i, (s.thread i).setups + 1)).life (i, n) = _
      rw [hlife, if_neg (by omega)]
      exact hthread.unborn n (by omega)

/-- `io_submit` -/
theorem Inv.submit (h : Inv device s) (hplace : (s.thread i).place = .doWork) {taken : Bool}
    (hnext : s.submit i cb taken = some s') : Inv device s' := by
  have hlive : (s.thread i).place.live = true := by rw [hplace]; rfl
  have hquiet : (s.thread i).place.waiting = none := by rw [hplace]; rfl
  cases taken with
  | false =>
      obtain rfl := Option.some.inj hnext
      split
      · exact h.goto hquiet rfl (Or.inl hlive.symm) rfl
      · next hne => exact (h.use hlive hne .submit).goto hquiet rfl (Or.inl hlive.symm) rfl
  | true =>
      rw [System.submit] at hnext
      split at hnext
      · cases hnext
      · next d hfile =>
        obtain rfl := Option.some.inj hnext
        have hne : (s.thread i).aioCtx ≠ 0 := by
          intro hctx
          rw [hctx, h.zero] at hfile
          cases hfile
        obtain rfl := Option.some.inj (hfile.symm.trans (h.file hlive hne).2)
        have hthread := h.thread i
        obtain ⟨hrequests, hevents⟩ := hthread.quiet hquiet (s.thread i).setups
        refine (h.use hlive hne .submit).postRequests _ _ ?_
        change ThreadOk (s.disk (device i)) s.clock i
          { s.thread i with place := .getEvents cb, since := s.clock } (fun n => s.kernel.life (i, n))
          (Function.update (fun n => s.requests (i, n)) (s.thread i).setups _) fun n => s.events (i, n)
        refine hthread.keep { s.thread i with place := .getEvents cb, since := s.clock }
          (Or.inl hlive.symm) rfl rfl (fun _ => hne) (fun n => ?_) nofun nofun (Nat.le_refl _)
        obtain ⟨hrequests, hevents⟩ := hthread.quiet hquiet n
        by_cases hn : n = (s.thread i).setups
        · rw [hn] at hevents hrequests ⊢
          rw [Function.update_self, hrequests]
          exact .request cb [] rfl rfl rfl hevents fun j hj => by cases hj
        · rw [Function.update_of_ne hn]
          exact .empty hrequests hevents

/-- The event that is reaped is the answer to the request that the thread waits for. -/
theorem Inv.reap (h : Inv device s) (hplace : (s.thread i).place = .getEvents cb)
    (hnext : s.reap i cb = some s') : Inv device s' := by
  have hlive : (s.thread i).place.live = true := by rw [hplace]; rfl
  have hwaiting : (s.thread i).place.waiting = some cb := by rw [hplace]; rfl
  have hthread := h.thread i
  have hne := hthread.waiting (hwaiting ▸ rfl)
  rw [System.reap, (h.file hlive hne).2] at hnext
  dsimp only at hnext
  cases hmail : hthread.mail (s.thread i).setups with
  | empty hrequests hevents => rw [hevents] at hnext; cases hnext
  | request cb' moved hcb hcurrent hrequests hevents => rw [hevents] at hnext; cases hnext
  | event cb' res hcb hcurrent hrequests hevents hmoved =>
      obtain rfl := Option.some.inj (hwaiting.symm.trans hcb)
      rw [hevents] at hnext
      obtain rfl := Option.some.inj hnext
      refine (h.use hlive hne .getEvents).postEvents _ _ ?_
      refine hthread.keep { s.thread i with
          place := .returned cb (decide (res = cb.nbytes))
          errorcount := (s.thread i).errorcount + if decide (res = cb.nbytes) then 0 else 1 }
        (Or.inl hlive.symm) rfl rfl nofun (fun n => ?_) nofun (fun cb' hcb' => ?_) hthread.since
      · by_cases hn : n = (s.thread i).setups
        · rw [hn]
          exact .empty hrequests (Function.update_self ..)
        · obtain ⟨hrequests, hevents⟩ := hthread.old hn
          exact .empty hrequests ((Function.update_of_ne hn ..).trans hevents)
      · obtain ⟨rfl, hok⟩ := Place.returned.inj hcb'
        exact fun j hj => (hmoved (of_decide_eq_true hok) j hj).congr rfl rfl

/-- `io_getevents` without an event. -/
theorem Inv.timeout (h : Inv device s) (hplace : (s.thread i).place = .getEvents cb) (errors : Nat) :
    Inv device ((s.call i (.use .getEvents)).setThread i
      { s.thread i with place := .cancel cb, errorcount := errors }) := by
  have hlive : (s.thread i).place.live = true := by rw [hplace]; rfl
  have hwaiting : (s.thread i).place.waiting = some cb := by rw [hplace]; rfl
  have hne := (h.thread i).waiting (hwaiting ▸ rfl)
  exact (h.use hlive hne .getEvents).setThread
    ((h.thread i).waitStep { s.thread i with place := .cancel cb, errorcount := errors } hwaiting.symm
      (hwaiting ▸ rfl) rfl rfl rfl rfl)

/-- `io_cancel` -/
theorem Inv.cancel (h : Inv device s) (hplace : (s.thread i).place = .cancel cb) (cancelled : Bool) :
    Inv device (s.cancel i cb cancelled) := by
  have hlive : (s.thread i).place.live = true := by rw [hplace]; rfl
  have hwaiting : (s.thread i).place.waiting = some cb := by rw [hplace]; rfl
  have hthread := h.thread i
  have hne := hthread.waiting (hwaiting ▸ rfl)
  have hwait := hthread.waitStep { s.thread i with place := .destroy cb } hwaiting.symm (hwaiting ▸ rfl) rfl
    rfl rfl rfl
  have hused : Inv device ((s.call i (.use .cancel)).goto i (.destroy cb)) :=
    (h.use hlive hne .cancel).setThread hwait
  unfold System.cancel
  rw [(h.file hlive hne).2]
  cases cancelled with
  | false => exact hused
  | true =>
      refine (h.use hlive hne .cancel).postRequests { s.thread i with place := .destroy cb } _ ?_
      change ThreadOk (s.disk (device i)) s.clock i { s.thread i with place := .destroy cb }
        (fun n => s.kernel.life (i, n))
        (Function.update (fun n => s.requests (i, n)) (s.thread i).setups _) fun n => s.events (i, n)
      refine hwait.keep { s.thread i with place := .destroy cb } (Or.inl rfl) rfl rfl (fun _ => hne)
        (fun n => ?_) nofun nofun hthread.since
      by_cases hn : n = (s.thread i).setups
      · rw [hn, Function.update_self]
        cases hthread.mail (s.thread i).setups with
        | empty hrequests hevents =>
            rw [hrequests]
            exact .empty rfl hevents
        | request cb' moved hcb hcurrent hrequests hevents =>
            rw [hrequests, List.eraseP_cons_of_pos (by simp)]
            exact .empty rfl hevents
        | event cb' res hcb hcurrent hrequests hevents hmoved =>
            rw [hrequests]
            exact .event cb' res (hwaiting.symm.trans hcb) rfl rfl hevents
              fun hres j hj => (hmoved hres j hj).congr rfl rfl
      · obtain ⟨hrequests, hevents⟩ := hthread.old hn
        exact .empty ((Function.update_of_ne hn ..).trans hrequests) hevents

/-- `io_destroy`, with what the thread does then. -/
theorem Inv.destroy (h : Inv device s) (hlive : (s.thread i).place.live = true) (t : Thread β)
    (hdead : t.place.live = false) (hrenew : ∀ cb, t.place = .renew cb → t.aioCtx = 0)
    (hsetups : t.setups = (s.thread i).setups) (hsince : t.since = (s.thread i).since) {s₁ : System ι δ β} (hdestroy : s.destroy i = some s₁) :
    Inv device (s₁.setThread i t) := by
  have hthread := h.thread i
  rw [System.destroy] at hdestroy
  split at hdestroy
  case isTrue hzero =>
    obtain rfl := Option.some.inj hdestroy
    have hquiet : (s.thread i).place.waiting = none := by
      by_contra hcon
      exact hthread.waiting (Option.isSome_iff_ne_none.mpr hcon) hzero
    refine h.setThread (ThreadOk.dead hdead (fun n hpos hn => ?_) (fun n hn => ?_)
      (fun n => (hthread.quiet hquiet n).1) (fun n => (hthread.quiet hquiet n).2) hrenew
      (hsince ▸ hthread.since))
    · exact hthread.closed n hpos (hsetups ▸ hn) fun _ hne => absurd hzero hne
    · exact hthread.unborn n (hsetups ▸ hn)
  case isFalse hne =>
    obtain ⟨hlife, hfile⟩ := h.file hlive hne
    rw [hfile] at hdestroy
    dsimp only at hdestroy
    split at hdestroy
    case isFalse => cases hdestroy
    case isTrue hempty =>
      obtain rfl := Option.some.inj hdestroy
      have hlife' : (s.call i .close).kernel.life =
          Function.update s.kernel.life (i, (s.thread i).setups) (.closed (s.thread i).aioCtx) :=
        life_call_close rfl hfile
      refine h.ofThread (i := i) (fun i' hi => Function.update_of_ne hi ..) (fun i' hi n => ?_)
        (fun _ _ _ => rfl) (fun i' hi n => Function.update_of_ne (other_context hi _ _) ..) rfl rfl
        (h.consistent.call ..) (h.sound.call h.consistent _ hlife) ?_ ?_
      · change (s.call i .close).kernel.life (i', n) = _
        rw [hlife', Function.update_of_ne (other_context hi _ _)]
      · change (s.kernel.call .close _ _).file 0 = none
        rw [file_call]
        by_cases hctx : 0 = (s.thread i).aioCtx
        · exact absurd hctx.symm hne
        · exact (Function.update_of_ne hctx ..).trans h.zero
      · change ThreadOk _ _ _ (Function.update s.thread i t i)
          (fun n => (s.call i .close).kernel.life (i, n)) (fun n => s.requests (i, n))
          fun n => Function.update s.events (i, (s.thread i).setups) [] (i, n)
        rw [Function.update_self, hlife']
        refine ThreadOk.dead hdead (fun n hpos hn => ?_) (fun n hn => ?_) (fun n => ?_) (fun n => ?_)
          hrenew (hsince ▸ hthread.since)
        · by_cases hlast : n = (s.thread i).setups
          · rw [hlast, Function.update_self]
            rfl
          · rw [Function.update_of_ne fun heq => hlast (congrArg Prod.snd heq)]
            exact hthread.closed n hpos (hsetups ▸ hn) fun _ _ => hlast
        · rw [hsetups] at hn
          rw [Function.update_of_ne fun heq => by cases heq; omega]
          exact hthread.unborn n hn
        · by_cases hlast : n = (s.thread i).setups
          · rw [hlast]
            exact List.isEmpty_iff.mp hempty
          · exact (hthread.old hlast).1
        · by_cases hlast : n = (s.thread i).setups
          · rw [hlast]
            exact Function.update_self ..
          · rw [Function.update_of_ne fun heq => hlast (congrArg Prod.snd heq)]
            exact (hthread.old hlast).2

/-! ## The kernel -/

/-- A request in flight is that of the thread of its context, which waits for it. -/
theorem Inv.inFlight (h : Inv device s) {d : Context ι} {n : Nat} {r : Request ι}
    (hr : (s.requests d)[n]? = some r) : n = 0 ∧ d = (r.thread, (s.thread r.thread).setups) ∧
      s.requests d = [r] ∧ s.events d = [] ∧ (s.thread r.thread).place.waiting = some r.cb ∧
      ∀ j ∈ r.moved, Landed (s.disk (device r.thread)) r.thread (s.thread r.thread) r.cb j := by
  obtain ⟨i, m⟩ := d
  cases (h.thread i).mail m with
  | empty hrequests hevents => rw [hrequests] at hr; cases hr
  | request cb moved hcb hcurrent hrequests hevents hmoved =>
      rw [hrequests] at hr
      obtain ⟨hn, hget⟩ := List.getElem?_eq_some_iff.mp hr
      have hzero : n = 0 := by simpa using hn
      subst hzero
      obtain rfl : ⟨i, cb, moved⟩ = r := hget
      exact ⟨rfl, by rw [hcurrent], hrequests, hevents, hcb, hmoved⟩
  | event cb res hcb hcurrent hrequests hevents hmoved => rw [hrequests] at hr; cases hr

omit [DecidableEq ι] in
/-- The byte is one of another thread, or that of the request itself. -/
theorem Landed.write {i' : ι} {j a : Nat} {b : β} {time : Nat} (h : Landed disk i' t cb j)
    (hsince : t.since < time) (hown : i = i' → a = cb.offset + j → b = t.buffer j) :
    Landed (disk.write i a b time) i' t cb j := by
  unfold Landed Device.write at *
  by_cases ha : cb.offset + j = a
  · subst ha
    simp only [Function.update_self]
    cases hop : cb.op with
    | read => exact Or.inr hsince
    | write => exact ⟨i, rfl, fun hi => hown hi rfl⟩
  · simp only [Function.update_of_ne ha]
    exact h

/-- The kernel notes that it has moved a byte. -/
theorem Inv.note (h : Inv device s) {r : Request ι} {j : Nat}
    (hrequests : s.requests (r.thread, (s.thread r.thread).setups) = [r])
    (hwaiting : (s.thread r.thread).place.waiting = some r.cb)
    (hj : Landed (s.disk (device r.thread)) r.thread (s.thread r.thread) r.cb j) :
    Inv device { s with
      requests := Function.update s.requests (r.thread, (s.thread r.thread).setups)
        [{ r with moved := j :: r.moved }] } := by
  obtain ⟨-, -, -, hevents, -, hmoved⟩ := h.inFlight (n := 0) (r := r) (by rw [hrequests]; rfl)
  have hthread := h.thread r.thread
  have hposted := h.postRequests (i := r.thread) (s.thread r.thread) [{ r with moved := j :: r.moved }] ?_
  · rw [System.setThread, Function.update_eq_self] at hposted
    exact hposted
  · refine hthread.keep _ (Or.inl rfl) rfl rfl hthread.waiting (fun n => ?_) hthread.renew
      hthread.returned hthread.since
    by_cases hn : n = (s.thread r.thread).setups
    · rw [hn, Function.update_self]
      exact .request r.cb (j :: r.moved) hwaiting rfl rfl hevents
        (List.forall_mem_cons.mpr ⟨hj, hmoved⟩)
    · rw [Function.update_of_ne hn]
      exact .empty (hthread.old hn).1 (hthread.old hn).2

/-- The kernel moves a byte from the disk. -/
theorem Inv.transferRead (h : Inv device s) {r : Request ι}
    (hrequests : s.requests (r.thread, (s.thread r.thread).setups) = [r])
    (hwaiting : (s.thread r.thread).place.waiting = some r.cb) (hop : r.cb.op = .read) (j : Nat) :
    let t := (s.thread r.thread).store j ((s.disk (device r.thread)).byte (r.cb.offset + j))
    Inv device (s.setThread r.thread t) ∧ Landed (s.disk (device r.thread)) r.thread t r.cb j := by
  intro t
  obtain ⟨-, -, -, hevents, -, hmoved⟩ := h.inFlight (n := 0) (r := r) (by rw [hrequests]; rfl)
  have hthread := h.thread r.thread
  have hj : Landed (s.disk (device r.thread)) r.thread t r.cb j := by
    rw [Landed, hop]
    exact Or.inl (Function.update_self ..)
  refine ⟨h.setThread ?_, hj⟩
  refine hthread.keep t (Or.inl rfl) rfl rfl hthread.waiting (fun n => ?_) hthread.renew
    (fun cb hcb => ?_) hthread.since
  · by_cases hn : n = (s.thread r.thread).setups
    · rw [hn]
      refine .request r.cb r.moved hwaiting rfl hrequests hevents fun k hk => ?_
      by_cases hkj : k = j
      · rw [hkj]
        exact hj
      · have hk' := hmoved k hk
        rw [Landed, hop] at hk' ⊢
        rwa [show t.buffer k = (s.thread r.thread).buffer k from Function.update_of_ne hkj ..]
    · exact .empty (hthread.old hn).1 (hthread.old hn).2
  · have hplace : (s.thread r.thread).place = .returned cb true := hcb
    rw [hplace] at hwaiting
    cases hwaiting

/-- The kernel answers a request. -/
theorem Inv.complete (h : Inv device s) {d : Context ι} {n : Nat} {res : Int} {r : Request ι}
    (hr : (s.requests d)[n]? = some r) (hhonest : System.Honest r res) :
    Inv device { s with
      requests := Function.update s.requests d ((s.requests d).eraseIdx n)
      events := Function.update s.events d (s.events d ++ [⟨r.thread, r.cb, res⟩]) } := by
  obtain ⟨rfl, rfl, hrequests, hevents, hwaiting, hmoved⟩ := h.inFlight hr
  rw [hrequests, hevents]
  have hthread := h.thread r.thread
  have hposted := h.post (i := r.thread) (s.thread r.thread) [] [⟨r.thread, r.cb, res⟩] ?_
  · rw [System.setThread, Function.update_eq_self] at hposted
    exact hposted
  · refine hthread.keep _ (Or.inl rfl) rfl rfl hthread.waiting (fun n => ?_) hthread.renew
      hthread.returned hthread.since
    by_cases hn : n = (s.thread r.thread).setups
    · rw [hn, Function.update_self, Function.update_self]
      exact .event r.cb res hwaiting rfl rfl rfl fun hres j hj => hmoved j (hhonest hres j hj)
    · rw [Function.update_of_ne hn, Function.update_of_ne hn]
      exact .empty (hthread.old hn).1 (hthread.old hn).2

/-- **A step of a thread.** -/
theorem Inv.threadStep (h : Inv device s) {a : Answer β} (hnext : s.threadStep i a = some s') :
    Inv device s' := by
  unfold System.threadStep at hnext
  split at hnext
  next ok hplace =>
    obtain rfl := Option.some.inj hnext
    cases ok <;> exact h.goto (by rw [hplace]; rfl) rfl (Or.inl (by rw [hplace]; rfl)) rfl
  next ok hplace =>
    obtain rfl := Option.some.inj hnext
    cases ok <;> exact h.goto (by rw [hplace]; rfl) rfl (Or.inl (by rw [hplace]; rfl)) rfl
  next ctx hplace => exact h.setup (by rw [hplace]; rfl) rfl rfl rfl hnext
  next hplace =>
    obtain rfl := Option.some.inj hnext
    exact h.goto (by rw [hplace]; rfl) rfl (Or.inl (by rw [hplace]; rfl)) rfl
  next buffer hplace =>
    obtain rfl := Option.some.inj hnext
    exact h.setThread ((h.thread i).quietStep { s.thread i with buffer := buffer } (by rw [hplace]; rfl)
      (by rw [hplace]; rfl) (Or.inl rfl) rfl rfl rfl (by rw [hplace]; rfl))
  next cb taken hplace => exact h.submit hplace hnext
  next hplace =>
    obtain rfl := Option.some.inj hnext
    exact h.goto (by rw [hplace]; rfl) rfl (Or.inl (by rw [hplace]; rfl)) rfl
  next cb hplace => exact h.reap hplace hnext
  next cb interrupted hplace =>
    obtain rfl := Option.some.inj hnext
    exact h.timeout hplace _
  next cb cancelled hplace =>
    obtain rfl := Option.some.inj hnext
    exact h.cancel hplace cancelled
  next cb _ hplace =>
    obtain ⟨s₁, hdestroy, rfl⟩ := Option.map_eq_some_iff.mp hnext
    exact h.destroy (by rw [hplace]; rfl) { s.thread i with place := .renew cb, aioCtx := 0 } rfl
      (fun _ _ => rfl) rfl rfl hdestroy
  next cb ctx hplace => exact h.setup (by rw [hplace]; rfl) rfl rfl rfl hnext
  next cb _ hplace =>
    obtain rfl := Option.some.inj hnext
    exact h.goto (by rw [hplace]; rfl) rfl (Or.inr ((h.thread i).renew cb hplace)) rfl
  next cb ok hplace =>
    obtain rfl := Option.some.inj hnext
    exact h.goto (by rw [hplace]; rfl) rfl (Or.inl (by rw [hplace]; rfl)) rfl
  next hplace =>
    obtain ⟨s₁, hdestroy, rfl⟩ := Option.map_eq_some_iff.mp hnext
    exact h.destroy (by rw [hplace]; rfl) { s.thread i with place := .closeDevice } rfl nofun rfl rfl hdestroy
  next hplace =>
    obtain rfl := Option.some.inj hnext
    exact h.goto (by rw [hplace]; rfl) rfl (Or.inl (by rw [hplace]; rfl)) rfl
  next hplace =>
    obtain rfl := Option.some.inj hnext
    exact h.goto (by rw [hplace]; rfl) rfl (Or.inl (by rw [hplace]; rfl)) rfl
  next => cases hnext

section Kernel

variable [DecidableEq δ]

/-- The kernel moves a byte to the disk. -/
theorem Inv.transferWrite (h : Inv device s) {r : Request ι}
    (hwaiting : (s.thread r.thread).place.waiting = some r.cb) (hop : r.cb.op = .write) (j : Nat) :
    let disk := (s.disk (device r.thread)).write r.thread (r.cb.offset + j)
      ((s.thread r.thread).buffer j) (s.clock + 1)
    Inv device { s with
        disk := Function.update s.disk (device r.thread) disk
        clock := s.clock + 1 } ∧
      Landed disk r.thread (s.thread r.thread) r.cb j := by
  refine ⟨⟨h.consistent, h.sound, h.zero, fun i => ?_⟩, ?_⟩
  · refine (h.thread i).atDisk _ (Nat.le_succ _) fun cb k hk hcb => ?_
    dsimp only
    by_cases hdevice : device i = device r.thread
    · rw [hdevice] at hk ⊢
      rw [Function.update_self]
      refine hk.write (Nat.lt_succ_of_le (h.thread i).since) fun hi hoffset => ?_
      subst hi
      -- the byte is one of the request itself
      rw [hwaiting] at hcb
      obtain rfl : r.cb = cb := hcb.elim (fun heq => Option.some.inj heq) nofun
      rw [Nat.add_left_cancel hoffset]
    · rwa [Function.update_of_ne hdevice]
  · rw [Landed, hop]
    exact ⟨r.thread, Function.update_self .., fun _ => Function.update_self ..⟩

/-- The kernel moves a byte. -/
theorem Inv.transfer (h : Inv device s) {d : Context ι} {n j : Nat} {r : Request ι}
    (hr : (s.requests d)[n]? = some r) :
    Inv device { s.transfer device r j with
      requests :=
        Function.update s.requests d ((s.requests d).set n { r with moved := j :: r.moved }) } := by
  obtain ⟨rfl, rfl, hrequests, -, hwaiting, -⟩ := h.inFlight hr
  rw [hrequests, List.set_cons_zero]
  unfold System.transfer
  cases hop : r.cb.op with
  | read =>
      obtain ⟨hinv, hj⟩ := h.transferRead hrequests hwaiting hop j
      have hnoted := hinv.note (r := r) (j := j)
      rw [System.setThread_self] at hnoted
      exact hnoted hrequests hwaiting hj
  | write =>
      obtain ⟨hinv, hj⟩ := h.transferWrite hwaiting hop j
      exact hinv.note hrequests hwaiting (by
        dsimp only
        rw [Function.update_self]
        exact hj)

/-- **A step of a run.** -/
theorem Inv.next (h : Inv device s) {l : Label ι β} (hnext : s.next device l = some s') :
    Inv device s' := by
  cases l with
  | thread i a => exact h.threadStep hnext
  | move d n j =>
      rw [System.next] at hnext
      split at hnext
      · cases hnext
      · next r hr =>
        split at hnext
        · obtain rfl := Option.some.inj hnext
          exact h.transfer hr
        · cases hnext
  | complete d n res =>
      rw [System.next] at hnext
      split at hnext
      · cases hnext
      · next r hr =>
        split at hnext
        · next hhonest =>
          obtain rfl := Option.some.inj hnext
          exact h.complete hr hhonest
        · cases hnext

theorem System.Reachable.inv (h : System.Reachable device s) : Inv device s := by
  obtain ⟨s₀, hinitial, hsteps⟩ := h
  induction hsteps with
  | refl => exact hinitial.inv
  | tail _ hstep ih =>
      obtain ⟨l, hnext⟩ := hstep
      exact ih.next hnext

/-! ## The calls of `AsyncDiskIO` -/

/-- **Asynchronous disk I/O.** In every state of every run, for each thread: the kernel has a request for
its buffer only while it waits for that request, and in the context that it has now. An event of its
contexts is the answer to the request that it waits for. Every call on a context has hit that of its
caller. The contexts that it has made have been destroyed once each, but for the one that it has now. After
a call of `AsyncDiskIO` that returned true all bytes of the request have been moved, and nothing has been
moved since. -/
theorem async_disk_io (h : System.Reachable device s) (i : ι) :
    (∀ d, ∀ r ∈ s.requests d, r.thread = i →
      (s.thread i).place.waiting = some r.cb ∧ s.kernel.life d = .opened (s.thread i).aioCtx) ∧
    (∀ n, ∀ e ∈ s.events (i, n), e.thread = i ∧ (s.thread i).place.waiting = some e.cb) ∧
    (∀ c ∈ s.kernel.calls, c.hit = some c.meant) ∧
    (∀ n, 0 < n → n ≤ (s.thread i).setups → s.kernel.closes (i, n) =
      if n = (s.thread i).setups ∧ (s.thread i).place.live = true ∧ (s.thread i).aioCtx ≠ 0 then 0 else 1) ∧
    ∀ cb, (s.thread i).place = .returned cb true →
      ∀ j < cb.nbytes, Landed (s.disk (device i)) i (s.thread i) cb j := by
  have hinv := h.inv
  have hthread := hinv.thread i
  refine ⟨fun d r hr hi => ?_, fun n e he => ?_, hinv.sound, fun n hpos hn => ?_, hthread.returned⟩
  · obtain ⟨k, hk⟩ := List.getElem?_of_mem hr
    obtain ⟨-, hd, -, -, hwaiting, -⟩ := hinv.inFlight hk
    subst hi
    have hsome : (s.thread r.thread).place.waiting.isSome := by rw [hwaiting]; rfl
    rw [hd]
    exact ⟨hwaiting, (hinv.file (live_of_waiting hsome) (hthread.waiting hsome)).1⟩
  · cases hthread.mail n with
    | empty hrequests hevents => rw [hevents] at he; cases he
    | request cb moved hcb hcurrent hrequests hevents => rw [hevents] at he; cases he
    | event cb res hcb hcurrent hrequests hevents =>
        rw [hevents, List.mem_singleton] at he
        subst he
        exact ⟨rfl, hcb⟩
  · rw [hinv.consistent.closes]
    by_cases hnow : n = (s.thread i).setups ∧ (s.thread i).place.live = true ∧ (s.thread i).aioCtx ≠ 0
    · rw [if_pos hnow, hnow.1, (hinv.file hnow.2.1 hnow.2.2).1]
      rfl
    · rw [if_neg hnow,
        if_pos (hthread.closed n hpos hn fun hlive hne hlast => hnow ⟨hlast, hlive, hne⟩)]

end Kernel

end Inv

/-! ## A late request -/

/-- No context has been made. -/
def idle : System Bool Unit Nat where
  thread _ := ⟨.openDevice, 0, fun _ => 0, 0, 0, 0⟩
  kernel := ⟨fun _ => none, fun _ => .unborn, []⟩
  requests _ := []
  events _ := []
  disk _ := ⟨fun _ => 0, fun _ => none, fun _ => 0⟩
  clock := 0

theorem initial_idle : idle.Initial :=
  ⟨fun _ => rfl, fun _ => rfl, fun _ => rfl,
    ⟨by simp [idle], fun _ => rfl⟩, rfl, fun _ => rfl, fun _ => rfl, fun _ => rfl⟩

/-- A thread is late with a write, which the kernel ends while `io_destroy` waits. The other thread gets the
number of its context. The second write is in time. -/
def lateLabels : List (Label Bool Nat) :=
  [.thread false (.go true), .thread false (.go true), .thread false (.newCtx 7),
    .thread false (.touch fun j => j + 1), .thread false (.start ⟨.write, 2, 10⟩ true),
    .thread false (.timeout false), .thread false (.go false), .move (false, 1) 0 1,
    .complete (false, 1) 0 (-5), .thread false (.go true), .thread true (.go true), .thread true (.go true),
    .thread true (.newCtx 7), .thread false (.newCtx 8), .thread false (.go true),
    .thread false (.start ⟨.write, 2, 20⟩ true), .move (false, 2) 0 1, .move (false, 2) 0 0,
    .complete (false, 2) 0 2, .thread false .reap]

theorem async_disk_io_late : ∃ s, idle.run (fun _ => ()) lateLabels = some s ∧
    (s.thread false).errorcount = 1 ∧ s.kernel.closes (false, 1) = 1 ∧ s.kernel.closes (false, 2) = 0 ∧
    Landed (s.disk ()) false (s.thread false) ⟨.write, 2, 20⟩ 1 := by
  have hrun : idle.run (fun _ => ()) lateLabels = some _ := rfl
  have hreachable := System.Reachable.run ⟨idle, initial_idle, .refl⟩ hrun
  obtain ⟨-, -, -, hcloses, hlanded⟩ := async_disk_io hreachable false
  exact ⟨_, hrun, rfl, hcloses 1 (by decide) (by decide), hcloses 2 (by decide) (by decide),
    hlanded ⟨.write, 2, 20⟩ rfl 1 (by decide)⟩

end StressAppTest.Disk.Async
