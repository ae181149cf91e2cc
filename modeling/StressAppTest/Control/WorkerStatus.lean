import Mathlib.Data.Fintype.Card
import Mathlib.Logic.Relation

/-!
# `WorkerStatus`

The control thread pauses, resumes and stops the workers through `status_` and a barrier. A paused
worker waits at the barrier twice: until all have come, and until the control thread resumes them.
A worker that leaves makes the barrier anew for one party less. A step is one operation on a lock,
on the barrier or on one of the two variables, so that `RemoveSelf` can be seen between its steps.

A thread holds a lock where its program counter says so (`Pc.reads`, `Pc.holdsNum`,
`Ctl.writes`). `pause_rwlock_` is only ever locked for reading and is left out.
-/

namespace StressAppTest.Control

/-- `enum Status` -/
inductive Status where
  | run
  | pause
  | stop
  deriving DecidableEq

/-- The calls of a worker. -/
inductive Call where
  | continueRunning
  | removeSelf
  deriving DecidableEq

/-- The two calls of `WaitOnPauseBarrier` in a pause. -/
inductive Wait where
  | pause
  | resume
  deriving DecidableEq

/-- Where a worker stands. -/
inductive Pc where
  /-- Outside both calls. -/
  | working
  /-- Before `AcquireStatusReadLock`. -/
  | lock (c : Call)
  /-- Before it reads `status_`. -/
  | look (c : Call)
  /-- Before `ReleaseStatusLock`, after it read `status`. -/
  | unlock (c : Call) (status : Status)
  /-- Before `pthread_barrier_wait`. -/
  | arrive (c : Call) (w : Wait)
  /-- At the barrier, which has not tripped. -/
  | waiting (c : Call) (w : Wait)
  /-- The barrier has tripped. -/
  | leave (c : Call) (w : Wait)
  /-- Before `AcquireNumWorkersLock`. -/
  | lockNum
  /-- Before `pthread_barrier_destroy`. -/
  | destroy
  /-- Before `pthread_barrier_init`. -/
  | init
  /-- Before `--num_workers_`. -/
  | decrement
  /-- Before `ReleaseNumWorkersLock`. -/
  | unlockNum
  /-- Before the last `ReleaseStatusLock`. -/
  | unlockStatus
  /-- `RemoveSelf` has returned. -/
  | gone
  deriving DecidableEq

/-- The worker holds `status_rwlock_` for reading. -/
def Pc.reads : Pc → Bool
  | .look _ | .unlock _ _ | .lockNum | .destroy | .init | .decrement | .unlockNum | .unlockStatus => true
  | _ => false

/-- The worker holds `num_workers_mutex_`. -/
def Pc.holdsNum : Pc → Bool
  | .destroy | .init | .decrement | .unlockNum => true
  | _ => false

/-- The worker has decremented `num_workers_`. -/
def Pc.countedOut : Pc → Bool
  | .unlockNum | .unlockStatus | .gone => true
  | _ => false

/-- The wait that the worker is about to begin or is in. -/
def Pc.stands : Pc → Option Wait
  | .arrive _ w | .waiting _ w => some w
  | _ => none

def Pc.isWaiting : Pc → Bool
  | .waiting _ _ => true
  | _ => false

/-- The barrier trips. -/
def Pc.trip : Pc → Pc
  | .waiting c w => .leave c w
  | p => p

/-- The calls of the control thread. -/
inductive Order where
  | pauseWorkers
  | resumeWorkers
  | stopWorkers
  deriving DecidableEq

/-- The argument of `SetStatus`. -/
def Order.status : Order → Status
  | .pauseWorkers => .pause
  | .resumeWorkers => .run
  | .stopWorkers => .stop

/-- The wait of a call, which depends on the status of before. -/
def Order.wait (prev : Status) : Order → Option Wait
  | .pauseWorkers => if prev = .pause then none else some .pause
  | .resumeWorkers | .stopWorkers => if prev = .pause then some .resume else none

/-- Where the control thread stands. -/
inductive Ctl where
  | idle
  /-- Before `AcquireStatusWriteLock`. -/
  | lock (o : Order)
  /-- Before it reads and sets `status_`. -/
  | write (o : Order)
  /-- Before `ReleaseStatusLock`. -/
  | unlock (o : Order) (prev : Status)
  | arrive (w : Wait)
  | waiting (w : Wait)
  | leave (w : Wait)
  deriving DecidableEq

/-- The control thread holds `status_rwlock_` for writing. -/
def Ctl.writes : Ctl → Bool
  | .write _ | .unlock _ _ => true
  | _ => false

def Ctl.stands : Ctl → Option Wait
  | .arrive w | .waiting w => some w
  | _ => none

def Ctl.isWaiting : Ctl → Bool
  | .waiting _ => true
  | _ => false

def Ctl.trip : Ctl → Ctl
  | .waiting w => .leave w
  | c => c

/-- A `WorkerStatus` with its workers `τ` and its control thread. `barrier` is the count of the
barrier, or nothing while it is destroyed. `paused` says that `PauseWorkers` has returned and
neither `ResumeWorkers` nor `StopWorkers` has been called since, and `stopped` that `StopWorkers`
has been called. -/
structure State (τ : Type) where
  numWorkers : Int
  status : Status
  barrier : Option Int
  pc : τ → Pc
  ctl : Ctl
  paused : Bool
  stopped : Bool

variable {τ : Type} [Fintype τ] [DecidableEq τ]

namespace State

/-- After `AddWorkers` for each worker, and `Initialize`. -/
def initial (τ : Type) [Fintype τ] : State τ where
  numWorkers := Fintype.card τ
  status := .run
  barrier := some (Fintype.card τ + 1)
  pc _ := .working
  ctl := .idle
  paused := false
  stopped := false

def setPc (s : State τ) (t : τ) (p : Pc) : State τ := { s with pc := Function.update s.pc t p }

/-- The threads at the barrier. -/
def arrived (s : State τ) : Nat :=
  (Finset.univ.filter fun t => (s.pc t).isWaiting = true).card + if s.ctl.isWaiting then 1 else 0

/-- The barrier trips as soon as `count` threads are there. -/
def tripIfFull (s : State τ) (count : Int) : State τ :=
  if count ≤ s.arrived then { s with pc := fun t => (s.pc t).trip, ctl := s.ctl.trip } else s

end State

/-- A step of a worker that changes nothing else. -/
inductive Move (s : State τ) : Pc → Pc → Prop
  /-- Any worker calls `ContinueRunning` any number of times, and may leave at any time. -/
  | call (c : Call) : Move s .working (.lock c)
  | acquire {c : Call} (hlock : s.ctl.writes = false) : Move s (.lock c) (.look c)
  | getStatus : Move s (.look .continueRunning) (.unlock .continueRunning s.status)
  | obey (hpause : s.status = .pause) : Move s (.look .removeSelf) (.unlock .removeSelf .pause)
  /-- `break`, with the lock. -/
  | keep (hpause : s.status ≠ .pause) : Move s (.look .removeSelf) .lockNum
  | returns {status : Status} (hpause : status ≠ .pause) :
      Move s (.unlock .continueRunning status) .working
  | pause {c : Call} : Move s (.unlock c .pause) (.arrive c .pause)
  | resume {c : Call} : Move s (.leave c .pause) (.arrive c .resume)
  | again {c : Call} : Move s (.leave c .resume) (.lock c)
  | acquireNum (hlock : ∀ t, (s.pc t).holdsNum = false) : Move s .lockNum .destroy
  | releaseNum : Move s .unlockNum .unlockStatus
  | release : Move s .unlockStatus .gone

/-- One step. -/
inductive Step : State τ → State τ → Prop
  | move {s : State τ} (t : τ) {p : Pc} (h : Move s (s.pc t) p) : Step s (s.setPc t p)
  | destroy {s : State τ} (t : τ) (h : s.pc t = .destroy) :
      Step s { s.setPc t .init with barrier := none }
  | init {s : State τ} (t : τ) (h : s.pc t = .init) :
      Step s { s.setPc t .decrement with barrier := some s.numWorkers }
  | decrement {s : State τ} (t : τ) (h : s.pc t = .decrement) :
      Step s { s.setPc t .unlockNum with numWorkers := s.numWorkers - 1 }
  | arrive {s : State τ} (t : τ) {c : Call} {w : Wait} {count : Int} (h : s.pc t = .arrive c w)
      (hbarrier : s.barrier = some count) : Step s ((s.setPc t (.waiting c w)).tripIfFull count)
  | order {s : State τ} (o : Order) (h : s.ctl = .idle) (hstopped : s.stopped = false) :
      Step s { s with
        ctl := .lock o
        paused := s.paused && o == .pauseWorkers
        stopped := o == .stopWorkers }
  | acquire {s : State τ} {o : Order} (h : s.ctl = .lock o) (hlock : ∀ t, (s.pc t).reads = false) :
      Step s { s with ctl := .write o }
  | setStatus {s : State τ} {o : Order} (h : s.ctl = .write o) :
      Step s { s with ctl := .unlock o s.status, status := o.status }
  | wait {s : State τ} {o : Order} {prev : Status} {w : Wait} (h : s.ctl = .unlock o prev)
      (hwait : o.wait prev = some w) : Step s { s with ctl := .arrive w }
  | noWait {s : State τ} {o : Order} {prev : Status} (h : s.ctl = .unlock o prev)
      (hwait : o.wait prev = none) :
      Step s { s with ctl := .idle, paused := s.paused || o == .pauseWorkers }
  | arriveCtl {s : State τ} {w : Wait} {count : Int} (h : s.ctl = .arrive w)
      (hbarrier : s.barrier = some count) :
      Step s (State.tripIfFull { s with ctl := .waiting w } count)
  | leaveCtl {s : State τ} {w : Wait} (h : s.ctl = .leave w) :
      Step s { s with ctl := .idle, paused := s.paused || w == .pause }

def Reachable (s : State τ) : Prop := Relation.ReflTransGen Step (State.initial τ) s

end StressAppTest.Control
