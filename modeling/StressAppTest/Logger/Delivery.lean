import Mathlib.Algebra.BigOperators.Group.Finset.Basic
import Mathlib.Algebra.Order.BigOperators.Group.Finset
import Mathlib.Data.Fintype.Basic
import Mathlib.Order.OrderIsoNat
import StressAppTest.Logger.Queue

/-!
# Delivery of log lines

The lines written so far, those of the local queue of the log thread and those of `queued_lines_`
are, in this order, the lines logged so far. The sentinel is the last entry, so that `ThreadMain`
returns with nothing left. No wake-up is lost: the log thread waits without a signal only if the
queue is empty, or if `StopThread` is about to signal; a producer does so only if the queue is full.
-/

namespace StressAppTest.Logger

variable {τ Λ : Type}

def LogThread.localQueue : LogThread Λ → List (Option Λ)
  | .writing localQueue => localQueue
  | _ => []

/-- The entries that have been queued and not written. -/
def State.pending (s : State τ Λ) : List (Option Λ) := s.logThread.localQueue ++ s.queuedLines

def Control.ending : Control → Bool
  | .signalling _ | .joining => true
  | _ => false

def LogThread.isGone : LogThread Λ → Bool
  | .gone => true
  | _ => false

/-- The sentinel is on its way to the log thread. -/
def State.sentinel (s : State τ Λ) : Bool := s.control.ending && !s.logThread.isGone

structure Inv (s : State τ Λ) : Prop where
  order : s.written ++ lines s.pending = s.logged
  pending : s.pending = (lines s.pending).map some ++ if s.sentinel then [none] else []
  running : s.threadRunning = true ↔ s.control = .on
  off : s.control = .off → s.logThread = .gone
  gone : s.logThread = .gone → s.queuedLines = [] ∧ s.control ≠ .on ∧ s.control ≠ .stopping
  outside : s.control ≠ .on → ∀ t, s.producer t = .idle ∨ ∃ line, s.producer t = .entering line
  alone : s.control ≠ .on → s.control ≠ .off → ∀ t, s.producer t = .idle
  logWait : s.logThread = .waiting false → s.queuedLines = [] ∨ s.control = .signalling true
  fullWait : ∀ t line, s.producer t = .waiting line false → kMaxQueueSize ≤ s.queuedLines.length

theorem inv_initial : Inv (initial τ Λ) where
  order := rfl
  pending := rfl
  running := by simp [initial]
  off := fun _ => rfl
  gone := fun _ => ⟨rfl, nofun, nofun⟩
  outside := fun _ _ => Or.inl rfl
  alone := fun _ _ _ => rfl
  logWait := nofun
  fullWait := nofun

@[simp] theorem localQueue_signal (l : LogThread Λ) : l.signal.localQueue = l.localQueue := by
  cases l <;> rfl

@[simp] theorem isGone_signal (l : LogThread Λ) : l.signal.isGone = l.isGone := by cases l <;> rfl

theorem signal_ne_waiting_false (l : LogThread Λ) : l.signal ≠ .waiting false := by
  cases l <;> simp [LogThread.signal]

theorem signal_eq_gone {l : LogThread Λ} : l.signal = .gone ↔ l = .gone := by
  cases l <;> simp [LogThread.signal]

/-- A producer that is in its wait sees a running log thread. -/
theorem Inv.on_of_waiting {s : State τ Λ} (h : Inv s) {t : τ} {line : Λ} {signalled : Bool}
    (ht : s.producer t = .waiting line signalled) : s.control = .on := by
  by_contra hcon
  rcases h.outside hcon t with hidle | ⟨l, henter⟩
  · cases ht.symm.trans hidle
  · cases ht.symm.trans henter

theorem Inv.on_of_resuming {s : State τ Λ} (h : Inv s) {t : τ} {line : Λ}
    (ht : s.producer t = .resuming line) : s.control = .on := by
  by_contra hcon
  rcases h.outside hcon t with hidle | ⟨l, henter⟩
  · cases ht.symm.trans hidle
  · cases ht.symm.trans henter

/-- Without a log thread, nothing is pending. -/
theorem Inv.pending_of_off {s : State τ Λ} (h : Inv s) (hoff : s.control = .off) : s.pending = [] := by
  have hgone := h.off hoff
  rw [State.pending, hgone, (h.gone hgone).1]
  rfl

theorem Inv.off_of_entering {s : State τ Λ} (h : Inv s) {t : τ} {line : Λ}
    (ht : s.producer t = .entering line) (hrunning : ¬ s.threadRunning = true) : s.control = .off := by
  by_contra hcon
  have hidle := h.alone (fun hon => hrunning (h.running.mpr hon)) hcon t
  rw [ht] at hidle
  cases hidle

/-! ## Steps of the log thread -/

theorem broadcast_ne_waiting_false (p : Producer Λ) (line : Λ) : p.broadcast ≠ .waiting line false := by
  cases p <;> simp [Producer.broadcast]

theorem broadcast_eq_self {p : Producer Λ} (h : p = .idle ∨ ∃ line, p = .entering line) :
    p.broadcast = p := by
  rcases h with rfl | ⟨line, rfl⟩ <;> rfl

/-- The log thread moves on without touching its local queue. -/
theorem Inv.setLog {s : State τ Λ} (h : Inv s) {l : LogThread Λ}
    (hlocal : l.localQueue = s.logThread.localQueue) (hgone : s.logThread.isGone = false)
    (hgone' : l.isGone = false) (hwait : l = .waiting false → s.queuedLines = []) :
    Inv { s with logThread := l } := by
  have hpending : State.pending { s with logThread := l } = s.pending := by
    simp only [State.pending, hlocal]
  have hsentinel : State.sentinel { s with logThread := l } = s.sentinel := by
    simp only [State.sentinel, hgone, hgone']
  refine { h with order := ?_, pending := ?_, off := ?_, gone := ?_, logWait := fun hl => Or.inl (hwait hl) }
  · rw [hpending]
    exact h.order
  · rw [hpending, hsentinel]
    exact h.pending
  · intro hoff
    rw [h.off hoff] at hgone
    cases hgone
  · rintro rfl
    cases hgone'

/-- The log thread takes the whole queue. -/
theorem Inv.swap {s : State τ Λ} (h : Inv s) (hlock : s.logThread = .locking) {p : τ → Producer Λ}
    (hp : ∀ t, (s.producer t = .idle ∨ ∃ line, s.producer t = .entering line) → p t = s.producer t)
    (hwait : ∀ t line, p t ≠ .waiting line false) :
    Inv { s with logThread := .writing s.queuedLines, queuedLines := [], producer := p } := by
  have hpending : State.pending { s with
      logThread := .writing s.queuedLines, queuedLines := [], producer := p } = s.pending := by
    simp [State.pending, LogThread.localQueue, hlock]
  have hsentinel : State.sentinel { s with
      logThread := .writing s.queuedLines, queuedLines := [], producer := p } = s.sentinel := by
    simp [State.sentinel, LogThread.isGone, hlock]
  refine ⟨?_, ?_, h.running, ?_, nofun, ?_, ?_, nofun, fun t line ht => absurd ht (hwait t line)⟩
  · rw [hpending]
    exact h.order
  · rw [hpending, hsentinel]
    exact h.pending
  · intro hoff
    cases hlock.symm.trans (h.off hoff)
  · intro hcon t
    have hout := h.outside hcon t
    rw [show ({ s with logThread := .writing s.queuedLines, queuedLines := [], producer := p } :
      State τ Λ).producer t = s.producer t from hp t hout]
    exact hout
  · intro hcon hcon' t
    have hidle := h.alone hcon hcon' t
    exact (hp t (Or.inl hidle)).trans hidle

theorem Inv.drain {s : State τ Λ} (h : Inv s) (hlock : s.logThread = .locking) : Inv (drain s) := by
  rw [Logger.drain]
  split
  · next hempty =>
    refine h.setLog ?_ ?_ rfl fun _ => List.isEmpty_iff.mp hempty
    · rw [hlock]
      rfl
    · rw [hlock]
      rfl
  · refine h.swap hlock ?_ ?_
    · intro t ht
      split
      · exact broadcast_eq_self ht
      · rfl
    · intro t line hwaiting
      split at hwaiting
      · exact broadcast_ne_waiting_false _ _ hwaiting
      · next hsize => exact hsize (h.fullWait t line hwaiting)

theorem Inv.write {s : State τ Λ} (h : Inv s) {line : Λ} {rest : List (Option Λ)}
    (hwriting : s.logThread = .writing (some line :: rest)) :
    Inv { s with logThread := .writing rest, written := s.written ++ [line] } := by
  have hpending : s.pending = some line :: State.pending { s with
      logThread := .writing rest, written := s.written ++ [line] } := by
    simp [State.pending, LogThread.localQueue, hwriting]
  have hsentinel : State.sentinel { s with
      logThread := .writing rest, written := s.written ++ [line] } = s.sentinel := by
    simp [State.sentinel, LogThread.isGone, hwriting]
  have horder := h.order
  have hentries := h.pending
  rw [hpending, lines_some] at horder hentries
  refine { h with order := ?_, pending := ?_, off := ?_, gone := nofun, logWait := nofun }
  · rw [← horder, List.append_assoc]
    rfl
  · rw [List.map_cons, List.cons_append, List.cons.injEq] at hentries
    rw [hsentinel]
    exact hentries.2
  · intro hoff
    cases hwriting.symm.trans (h.off hoff)

/-- The sentinel is the last entry. -/
theorem Inv.last_of_null {s : State τ Λ} (h : Inv s) {rest : List (Option Λ)}
    (hwriting : s.logThread = .writing (none :: rest)) :
    rest = [] ∧ s.queuedLines = [] ∧ s.control.ending = true := by
  have hpending : s.pending = none :: (rest ++ s.queuedLines) := by
    simp [State.pending, LogThread.localQueue, hwriting]
  have hentries := h.pending
  rw [hpending, lines_none] at hentries
  cases hlines : lines (rest ++ s.queuedLines) with
  | nil =>
      rw [hlines, List.map_nil, List.nil_append] at hentries
      split at hentries
      · next hsentinel =>
        rw [List.cons.injEq, List.append_eq_nil_iff] at hentries
        rw [State.sentinel, Bool.and_eq_true] at hsentinel
        exact ⟨hentries.2.1, hentries.2.2, hsentinel.1⟩
      · exact absurd hentries (List.cons_ne_nil _ _)
  | cons l ls =>
      rw [hlines] at hentries
      simp at hentries

theorem Inv.exit {s : State τ Λ} (h : Inv s) {rest : List (Option Λ)}
    (hwriting : s.logThread = .writing (none :: rest)) : Inv { s with logThread := .gone } := by
  obtain ⟨rfl, hqueue, hending⟩ := h.last_of_null hwriting
  have hlines : lines s.pending = [] := by
    simp [State.pending, LogThread.localQueue, hwriting, hqueue]
  have hpending : State.pending { s with logThread := .gone } = [] := by
    simp [State.pending, LogThread.localQueue, hqueue]
  refine { h with order := ?_, pending := ?_, off := fun _ => rfl, gone := ?_, logWait := nofun }
  · rw [hpending, ← h.order, hlines]
    rfl
  · rw [hpending]
    simp [State.sentinel, LogThread.isGone]
  · intro _
    refine ⟨hqueue, ?_, ?_⟩ <;> intro hcontrol <;> rw [hcontrol] at hending <;> cases hending

/-! ## Steps of `StartThread` and `StopThread` -/

theorem Inv.start {s : State τ Λ} (h : Inv s) (hoff : s.control = .off)
    (hidle : ∀ t, s.producer t = .idle) :
    Inv { s with threadRunning := true, logThread := .locking, control := .on } := by
  have hqueue := (h.gone (h.off hoff)).1
  have hpending : State.pending { s with
      threadRunning := true, logThread := .locking, control := .on } = s.pending := by
    rw [h.pending_of_off hoff]
    simp [State.pending, LogThread.localQueue, hqueue]
  refine ⟨?_, ?_, by simp, nofun, nofun, fun hcon => absurd rfl hcon, fun hcon => absurd rfl hcon, nofun, ?_⟩
  · rw [hpending]
    exact h.order
  · rw [hpending, h.pending_of_off hoff]
    rfl
  · intro t line ht
    cases (hidle t).symm.trans ht

theorem Inv.stop {s : State τ Λ} (h : Inv s) (hon : s.control = .on)
    (hidle : ∀ t, s.producer t = .idle) :
    Inv { s with threadRunning := false, control := .stopping } := by
  have hsentinel : s.sentinel = false := by simp [State.sentinel, hon, Control.ending]
  have hentries := h.pending
  rw [hsentinel] at hentries
  refine ⟨h.order, hentries, by simp, nofun, ?_, fun _ t => Or.inl (hidle t), fun _ _ t => hidle t, ?_, ?_⟩
  · intro hgone
    exact absurd hon (h.gone hgone).2.1
  · intro hwait
    rcases h.logWait hwait with hqueue | hcontrol
    · exact Or.inl hqueue
    · cases hon.symm.trans hcontrol
  · intro t line ht
    cases (hidle t).symm.trans ht

theorem Inv.pushNull {s : State τ Λ} (h : Inv s) (hcontrol : s.control = .stopping) :
    Inv { s with
      queuedLines := s.queuedLines ++ [none]
      control := .signalling s.queuedLines.isEmpty } := by
  have hidle := h.alone (by simp [hcontrol]) (by simp [hcontrol])
  have hgone : s.logThread.isGone = false := by
    cases hlog : s.logThread with
    | gone => exact absurd hcontrol (h.gone hlog).2.2
    | _ => rfl
  have hpending : State.pending { s with
      queuedLines := s.queuedLines ++ [none]
      control := .signalling s.queuedLines.isEmpty } = s.pending ++ [none] := by
    simp [State.pending]
  have hentries := h.pending
  have hsentinel : s.sentinel = false := by simp [State.sentinel, hcontrol, Control.ending]
  rw [hsentinel, if_neg Bool.false_ne_true, List.append_nil] at hentries
  refine ⟨?_, ?_, ?_, nofun, ?_, fun _ t => Or.inl (hidle t), fun _ _ t => hidle t, ?_, ?_⟩
  · rw [hpending, lines_append, lines_none, lines_nil, List.append_nil]
    exact h.order
  · rw [hpending, lines_append, lines_none, lines_nil, List.append_nil, ← hentries]
    simp [State.sentinel, Control.ending, hgone]
  · simp [h.running, hcontrol]
  · intro hlog
    rw [show s.logThread = .gone from hlog] at hgone
    cases hgone
  · intro hwait
    rcases h.logWait hwait with hqueue | hsignal
    · right
      simp [hqueue]
    · cases hcontrol.symm.trans hsignal
  · intro t line ht
    cases (hidle t).symm.trans ht

theorem Inv.signal {s : State τ Λ} (h : Inv s) {need : Bool} (hcontrol : s.control = .signalling need) :
    Inv { s with
      logThread := if need then s.logThread.signal else s.logThread
      control := .joining } := by
  have hidle := h.alone (by simp [hcontrol]) (by simp [hcontrol])
  have hpending : State.pending { s with
      logThread := if need then s.logThread.signal else s.logThread
      control := .joining } = s.pending := by
    cases need <;> simp [State.pending]
  have hsentinel : State.sentinel { s with
      logThread := if need then s.logThread.signal else s.logThread
      control := .joining } = s.sentinel := by
    cases need <;> simp [State.sentinel, hcontrol, Control.ending]
  refine ⟨?_, ?_, ?_, nofun, ?_, fun _ t => Or.inl (hidle t), fun _ _ t => hidle t, ?_, ?_⟩
  · rw [hpending]
    exact h.order
  · rw [hpending, hsentinel]
    exact h.pending
  · simp [h.running, hcontrol]
  · intro hlog
    have hgone : s.logThread = .gone := by
      cases need with
      | false => exact hlog
      | true => exact signal_eq_gone.mp hlog
    exact ⟨(h.gone hgone).1, nofun, nofun⟩
  · intro hwait
    cases need with
    | false =>
        rcases h.logWait hwait with hqueue | hsignal
        · exact Or.inl hqueue
        · cases hcontrol.symm.trans hsignal
    | true => exact absurd hwait (signal_ne_waiting_false _)
  · intro t line ht
    cases (hidle t).symm.trans ht

theorem Inv.join {s : State τ Λ} (h : Inv s) (hcontrol : s.control = .joining)
    (hgone : s.logThread = .gone) : Inv { s with control := .off } := by
  have hidle := h.alone (by simp [hcontrol]) (by simp [hcontrol])
  have hsentinel : s.sentinel = false := by simp [State.sentinel, hgone, LogThread.isGone]
  have hentries := h.pending
  rw [hsentinel] at hentries
  refine ⟨h.order, hentries, ?_, fun _ => hgone, fun _ => ⟨(h.gone hgone).1, nofun, nofun⟩,
    fun _ t => Or.inl (hidle t), fun _ hcon => absurd rfl hcon, ?_, h.fullWait⟩
  · simp [h.running, hcontrol]
  · intro hwait
    cases hgone.symm.trans hwait

/-! ## Steps of the producers -/

variable [DecidableEq τ]

theorem pending_pushLine (s : State τ Λ) (t : τ) (line : Λ) :
    (pushLine s t line).pending = s.pending ++ [some line] := by
  simp only [State.pending, pushLine]
  split <;> simp

/-- A line of a running logger is the last one of the pending entries. -/
theorem Inv.pushLine {s : State τ Λ} (h : Inv s) (hon : s.control = .on) (t : τ) (line : Λ) :
    Inv (pushLine s t line) where
  order := by
    rw [pending_pushLine, lines_append, ← List.append_assoc]
    exact congrArg (· ++ [line]) h.order
  pending := by
    have hs : s.sentinel = false := by simp [State.sentinel, hon, Control.ending]
    have hs' : (Logger.pushLine s t line).sentinel = false := by
      simp [State.sentinel, Logger.pushLine, hon, Control.ending]
    have hpending := h.pending
    rw [hs, if_neg Bool.false_ne_true, List.append_nil] at hpending
    rw [pending_pushLine, hs', if_neg Bool.false_ne_true, List.append_nil, lines_append, List.map_append,
      ← hpending]
    rfl
  running := h.running
  off := fun hoff => absurd (hon.symm.trans hoff) nofun
  gone := by
    intro hgone
    have hsgone : s.logThread = .gone := by
      simp only [Logger.pushLine] at hgone
      split at hgone
      · exact signal_eq_gone.mp hgone
      · exact hgone
    exact absurd hon (h.gone hsgone).2.1
  outside := fun hcon => absurd hon hcon
  alone := fun hcon => absurd hon hcon
  logWait := by
    intro hwait
    simp only [Logger.pushLine] at hwait
    split at hwait
    · exact absurd hwait (signal_ne_waiting_false _)
    · next hne =>
      rcases h.logWait hwait with hempty | hsignal
      · exact absurd (List.isEmpty_iff.mpr hempty) hne
      · cases hon.symm.trans hsignal
  fullWait := by
    intro u l hu
    have hne : u ≠ t := by
      rintro rfl
      simp [Logger.pushLine] at hu
    have hsu : s.producer u = .waiting l false := by
      simpa [Logger.pushLine, Function.update_of_ne hne] using hu
    have hle := h.fullWait u l hsu
    simp only [Logger.pushLine, List.length_append]
    omega

/-- A change of one producer that does not start a wait. -/
theorem Inv.update {s : State τ Λ} (h : Inv s) {t : τ} {p : Producer Λ}
    (hoff : s.control ≠ .on → p = .idle ∨ ∃ line, p = .entering line)
    (halone : s.control ≠ .on → s.control ≠ .off → p = .idle)
    (hwait : ∀ line, p = .waiting line false → kMaxQueueSize ≤ s.queuedLines.length) :
    Inv { s with producer := Function.update s.producer t p } where
  order := h.order
  pending := h.pending
  running := h.running
  off := h.off
  gone := h.gone
  outside := by
    intro hcon u
    by_cases hu : u = t
    · subst hu
      simpa using hoff hcon
    · simpa [Function.update_of_ne hu] using h.outside hcon u
  alone := by
    intro hcon hcon' u
    by_cases hu : u = t
    · subst hu
      simpa using halone hcon hcon'
    · simpa [Function.update_of_ne hu] using h.alone hcon hcon' u
  logWait := h.logWait
  fullWait := by
    intro u line hu
    by_cases hut : u = t
    · subst hut
      exact hwait line (by simpa using hu)
    · exact h.fullWait u line (by simpa [Function.update_of_ne hut] using hu)

/-- A line that is written by its own thread comes after all others. -/
theorem Inv.writeLine {s : State τ Λ} (h : Inv s) (hoff : s.control = .off) (t : τ) (line : Λ) :
    Inv (writeLine s t line) := by
  have hupdate := h.update (t := t) (p := .idle) (fun _ => Or.inl rfl) (fun _ _ => rfl) nofun
  refine { hupdate with order := ?_ }
  have horder := h.order
  rw [h.pending_of_off hoff, lines_nil, List.append_nil] at horder
  have hpending : (Logger.writeLine s t line).pending = [] := h.pending_of_off hoff
  rw [hpending, lines_nil, List.append_nil]
  exact congrArg (· ++ [line]) horder

theorem Inv.enter {s : State τ Λ} (h : Inv s) {t : τ} {line : Λ}
    (ht : s.producer t = .entering line) : Inv (queueLogLine s t line) := by
  rw [queueLogLine]
  split
  · next hrunning =>
    have hon := h.running.mp hrunning
    split
    · next hfull =>
      exact h.update (fun hcon => absurd hon hcon) (fun hcon => absurd hon hcon) fun _ _ => hfull
    · exact h.pushLine hon t line
  · next hrunning => exact h.writeLine (h.off_of_entering ht hrunning) t line

/-! ## All steps -/

theorem Inv.step {s s' : State τ Λ} {e : Event τ Λ} (h : Inv s) (hs : Step s e s') : Inv s' := by
  cases hs with
  | @call t line hidle hcontrol =>
      refine h.update (fun _ => Or.inr ⟨line, rfl⟩) (fun hcon hcon' => ?_) nofun
      exact absurd hcontrol (by simp [hcon, hcon'])
  | enter henter => exact h.enter henter
  | @wake t line hwait =>
      have hon : s.control = .on := h.on_of_waiting hwait
      exact h.update (fun hcon => absurd hon hcon) (fun hcon => absurd hon hcon) nofun
  | @spurious t line signalled hwait =>
      have hon : s.control = .on := h.on_of_waiting hwait
      exact h.update (fun hcon => absurd hon hcon) (fun hcon => absurd hon hcon) nofun
  | resume hresume => exact h.pushLine (h.on_of_resuming hresume) _ _
  | drain hlock => exact h.drain hlock
  | logWake hwait => exact h.setLog (by rw [hwait]; rfl) (by rw [hwait]; rfl) rfl nofun
  | logSpurious hwait => exact h.setLog (by rw [hwait]; rfl) (by rw [hwait]; rfl) rfl nofun
  | write hwriting => exact h.write hwriting
  | relock hwriting => exact h.setLog (by rw [hwriting]; rfl) (by rw [hwriting]; rfl) rfl nofun
  | exit hwriting => exact h.exit hwriting
  | start hcontrol hidle => exact h.start hcontrol hidle
  | stop hcontrol hidle => exact h.stop hcontrol hidle
  | pushNull hcontrol => exact h.pushNull hcontrol
  | signal hcontrol => exact h.signal hcontrol
  | join hcontrol hgone => exact h.join hcontrol hgone

theorem inv_of_reachable {s : State τ Λ} (h : Reachable s) : Inv s :=
  h.inv inv_initial fun _ _ _ hinv hs => hinv.step hs

/-! ## Progress -/

/-- Steps of calls that are under way. Calls that begin and spurious wake-ups are none. -/
def Event.internal : Event τ Λ → Bool
  | .call _ _ | .spurious _ | .logSpurious | .start | .stop => false
  | _ => true

/-- No call that is under way can take a step. -/
def Quiescent (s : State τ Λ) : Prop := ∀ e s', e.internal = true → ¬ Step s e s'

theorem Quiescent.producer {s : State τ Λ} (hq : Quiescent s) (t : τ) :
    s.producer t = .idle ∨ ∃ line, s.producer t = .waiting line false := by
  cases hp : s.producer t with
  | idle => exact Or.inl rfl
  | entering line => exact absurd (Step.enter hp) (hq _ _ rfl)
  | waiting line signalled =>
      cases signalled with
      | false => exact Or.inr ⟨line, rfl⟩
      | true => exact absurd (Step.wake hp) (hq _ _ rfl)
  | resuming line => exact absurd (Step.resume hp) (hq _ _ rfl)

theorem Quiescent.logThread {s : State τ Λ} (hq : Quiescent s) :
    s.logThread = .gone ∨ s.logThread = .waiting false := by
  cases hl : s.logThread with
  | gone => exact Or.inl rfl
  | locking => exact absurd (Step.drain hl) (hq _ _ rfl)
  | waiting signalled =>
      cases signalled with
      | false => exact Or.inr rfl
      | true => exact absurd (Step.logWake hl) (hq _ _ rfl)
  | writing localQueue =>
      match localQueue, hl with
      | [], hl => exact absurd (Step.relock hl) (hq _ _ rfl)
      | none :: rest, hl => exact absurd (Step.exit hl) (hq _ _ rfl)
      | some line :: rest, hl => exact absurd (Step.write hl) (hq _ _ rfl)

theorem Quiescent.control {s : State τ Λ} (hq : Quiescent s) (h : Inv s) :
    s.control = .off ∨ s.control = .on := by
  cases hc : s.control with
  | off => exact Or.inl rfl
  | on => exact Or.inr rfl
  | stopping => exact absurd (Step.pushNull hc) (hq _ _ rfl)
  | signalling need => exact absurd (Step.signal hc) (hq _ _ rfl)
  | joining =>
      rcases hq.logThread with hgone | hwait
      · exact absurd (Step.join hc hgone) (hq _ _ rfl)
      · -- the sentinel would be pending, and the log thread would have been signalled
        rcases h.logWait hwait with hqueue | hsignal
        · have hentries := h.pending
          have hsentinel : s.sentinel = true := by
            simp [State.sentinel, hc, Control.ending, hwait, LogThread.isGone]
          have hpending : s.pending = [] := by
            simp [State.pending, hwait, LogThread.localQueue, hqueue]
          rw [hpending, hsentinel] at hentries
          cases hentries
        · cases hc.symm.trans hsignal

def Producer.weight : Producer Λ → Nat
  | .idle => 0
  | .entering _ => 25
  | .waiting _ signalled => if signalled then 23 else 24
  | .resuming _ => 22

def LogThread.weight : LogThread Λ → Nat
  | .gone => 0
  | .locking => 3
  | .waiting signalled => if signalled then 5 else 0
  | .writing localQueue => 4 + 2 * localQueue.length

def Control.weight : Control → Nat
  | .off | .on => 0
  | .stopping => 30
  | .signalling _ => 10
  | .joining => 4

variable [Fintype τ]

end StressAppTest.Logger
