import Mathlib.Data.List.Basic
import Mathlib.Logic.Relation
import StressAppTest.Library.Descriptors

/-!
# Asynchronous disk I/O (`DiskThread::AsyncDiskIO`, `DiskThread::Work`)

Each disk thread has a context of the kernel for its requests, and a block buffer that the kernel moves
the bytes of a request to or from, one at a time and in any order, while the thread goes on. A request
that is not answered in time stays in the context when `io_cancel` fails, which it seems always to do. So
`AsyncDiskIO` destroys the context, which waits until the kernel has done with its requests, and makes a
new one, which may come under the number of the old one.

The threads of any number of disks run beside each other. In `DoWork` a thread changes its buffer as it
likes and calls `AsyncDiskIO` as it likes.

* `async_disk_io`: a request is in flight only inside the call of `AsyncDiskIO` that has made it, no
  thread ever reaps an event of another request, each context is destroyed once, and a call that returns
  true has moved all bytes.
-/

namespace StressAppTest.Disk.Async

open Descriptors

/-- `ASYNC_IO_READ`, `ASYNC_IO_WRITE` -/
inductive IoOp where
  | read
  | write
  deriving DecidableEq, Repr

/-- The control block of a request; `buf` is always the block buffer. -/
structure Iocb where
  op : IoOp
  nbytes : Nat
  offset : Nat
  deriving DecidableEq, Repr

/-- A request that the kernel has taken, with the buffer of which thread, and the bytes moved so far. -/
structure Request (ι : Type) where
  thread : ι
  cb : Iocb
  moved : List Nat

/-- An answer of the kernel. -/
structure IoEvent (ι : Type) where
  thread : ι
  cb : Iocb
  res : Int

/-- The calls on a context. -/
inductive Way where
  | submit
  | getEvents
  | cancel
  deriving DecidableEq, Repr

/-- The contexts that a thread makes, from number 1 on. -/
abbrev Context (ι : Type) := ι × Nat

/-- Where a thread is. -/
inductive Place where
  | openDevice
  | memalign
  /-- Before `io_setup` in `Work`. -/
  | setup
  /-- In `DoWork`, outside `AsyncDiskIO`. -/
  | doWork
  /-- Before `io_getevents`. -/
  | getEvents (cb : Iocb)
  /-- Before `io_cancel`. -/
  | cancel (cb : Iocb)
  /-- Before `io_destroy`. -/
  | destroy (cb : Iocb)
  /-- Before `io_setup` in `AsyncDiskIO`. -/
  | renew (cb : Iocb)
  /-- `AsyncDiskIO` has returned. -/
  | returned (cb : Iocb) (ok : Bool)
  /-- Before `io_destroy` in `Work`. -/
  | destroyLast
  | closeDevice
  | exited
  /-- The destructor has freed the buffer. -/
  | deleted
  deriving DecidableEq, Repr

/-- A disk thread; `setups` counts the contexts that it has made, and `since` is the time of its last
request. -/
structure Thread (β : Type) where
  place : Place
  aioCtx : Nat
  buffer : Nat → β
  errorcount : Nat
  setups : Nat
  since : Nat

/-- A byte of the buffer is stored. -/
def Thread.store {β : Type} (t : Thread β) (j : Nat) (b : β) : Thread β :=
  { t with buffer := Function.update t.buffer j b }

/-- A disk, with the thread that has written a byte last, and when. -/
structure Device (ι β : Type) where
  byte : Nat → β
  author : Nat → Option ι
  stamp : Nat → Nat

/-- A byte is written by thread `i`. -/
def Device.write {ι β : Type} (disk : Device ι β) (i : ι) (a : Nat) (b : β) (time : Nat) : Device ι β where
  byte := Function.update disk.byte a b
  author := Function.update disk.author a (some i)
  stamp := Function.update disk.stamp a time

/-- The threads, the kernel and the disks. The time is the number of bytes written. -/
structure System (ι δ β : Type) where
  thread : ι → Thread β
  kernel : Kernel Way (Context ι)
  requests : Context ι → List (Request ι)
  events : Context ι → List (IoEvent ι)
  disk : δ → Device ι β
  clock : Nat

/-- What a thread is told. -/
inductive Answer (β : Type) where
  /-- Whether a call has succeeded. -/
  | go (yes : Bool)
  /-- A new context. -/
  | newCtx (ctx : Nat)
  /-- The buffer is changed. -/
  | touch (buffer : Nat → β)
  /-- `AsyncDiskIO` is called, and `io_submit` takes the request or not. -/
  | start (cb : Iocb) (taken : Bool)
  /-- `io_getevents` has an event. -/
  | reap
  /-- `io_getevents` has none. -/
  | timeout (interrupted : Bool)

/-- A step of a thread, or of the kernel: it moves a byte of a request, or answers a request. -/
inductive Label (ι β : Type) where
  | thread (i : ι) (a : Answer β)
  | move (d : Context ι) (n j : Nat)
  | complete (d : Context ι) (n : Nat) (res : Int)

section System

variable {ι δ β : Type} [DecidableEq ι] [DecidableEq δ]

namespace System

def setThread (s : System ι δ β) (i : ι) (t : Thread β) : System ι δ β :=
  { s with thread := Function.update s.thread i t }

omit [DecidableEq δ] in
@[simp]
theorem setThread_self (s : System ι δ β) (i : ι) (t : Thread β) : (s.setThread i t).thread i = t :=
  Function.update_self ..

def goto (s : System ι δ β) (i : ι) (place : Place) : System ι δ β :=
  s.setThread i { s.thread i with place := place }

/-- A call on `aio_ctx_`. -/
def call (s : System ι δ β) (i : ι) (op : Op Way) : System ι δ β :=
  { s with kernel := s.kernel.call op (i, (s.thread i).setups) (s.thread i).aioCtx }

/-- `io_setup` -/
def setup (s : System ι δ β) (i : ι) (ctx : Nat) (place : Place) : Option (System ι δ β) :=
  -- the kernel gives a number that is not 0 and not in use
  if ctx ≠ 0 ∧ s.kernel.file ctx = none then
    some { s.setThread i { s.thread i with
        place := place
        aioCtx := ctx
        setups := (s.thread i).setups + 1 } with
      kernel := s.kernel.openAt ctx (i, (s.thread i).setups + 1) }
  else none

/-- `io_submit`, which fails on the number 0. -/
def submit (s : System ι δ β) (i : ι) (cb : Iocb) (taken : Bool) : Option (System ι δ β) :=
  match taken with
  | false =>
      let s' := if (s.thread i).aioCtx = 0 then s else s.call i (.use .submit)
      some (s'.goto i (.returned cb false))
  | true =>
      match s.kernel.file (s.thread i).aioCtx with
      | none => none
      | some d =>
          let s' := s.call i (.use .submit)
          some { s'.setThread i { s.thread i with place := .getEvents cb, since := s.clock } with
            requests := Function.update s.requests d (s.requests d ++ [⟨i, cb, []⟩]) }

/-- `io_getevents` with an event, and the test of `event.res`. -/
def reap (s : System ι δ β) (i : ι) (cb : Iocb) : Option (System ι δ β) :=
  match s.kernel.file (s.thread i).aioCtx with
  | none => none
  | some d =>
      match s.events d with
      | [] => none
      | e :: rest =>
          let ok := decide (e.res = cb.nbytes)
          let s' := s.call i (.use .getEvents)
          some { s'.setThread i { s.thread i with
              place := .returned cb ok
              errorcount := (s.thread i).errorcount + if ok then 0 else 1 } with
            events := Function.update s.events d rest }

/-- `io_cancel`, which takes the request of the thread out of the context when it succeeds. -/
def cancel (s : System ι δ β) (i : ι) (cb : Iocb) (cancelled : Bool) : System ι δ β :=
  let s' := (s.call i (.use .cancel)).goto i (.destroy cb)
  match cancelled, s.kernel.file (s.thread i).aioCtx with
  | true, some d =>
      { s' with
        requests := Function.update s.requests d ((s.requests d).eraseP fun r => r.thread = i) }
  | _, _ => s'

/-- `io_destroy`, which waits for the requests of the context. It does nothing on the number 0. -/
def destroy (s : System ι δ β) (i : ι) : Option (System ι δ β) :=
  if (s.thread i).aioCtx = 0 then some s
  else
    match s.kernel.file (s.thread i).aioCtx with
    | none => some (s.call i .close)
    | some d =>
        if (s.requests d).isEmpty then
          some { s.call i .close with events := Function.update s.events d [] }
        else none

/-- `AsyncDiskIO` and `Work` -/
def threadStep (s : System ι δ β) (i : ι) (a : Answer β) : Option (System ι δ β) :=
  match (s.thread i).place, a with
  | .openDevice, .go ok => some (s.goto i (if ok then .memalign else .exited))
  | .memalign, .go ok => some (s.goto i (if ok then .setup else .closeDevice))
  | .setup, .newCtx ctx => s.setup i ctx .doWork
  | .setup, .go _ => some (s.goto i .closeDevice)
  | .doWork, .touch buffer => some (s.setThread i { s.thread i with buffer := buffer })
  | .doWork, .start cb taken => s.submit i cb taken
  | .doWork, .go _ => some (s.goto i .destroyLast)
  | .getEvents cb, .reap => s.reap i cb
  | .getEvents cb, .timeout interrupted =>
      some ((s.call i (.use .getEvents)).setThread i
        { s.thread i with
          place := .cancel cb
          errorcount := (s.thread i).errorcount + if interrupted then 0 else 1 })
  | .cancel cb, .go cancelled => some (s.cancel i cb cancelled)
  | .destroy cb, .go _ =>
      (s.destroy i).map fun t => t.setThread i { s.thread i with place := .renew cb, aioCtx := 0 }
  | .renew cb, .newCtx ctx => s.setup i ctx (.returned cb false)
  | .renew cb, .go _ => some (s.goto i (.returned cb false))
  | .returned _ _, .go _ => some (s.goto i .doWork)
  | .destroyLast, .go _ =>
      (s.destroy i).map fun t => t.setThread i { s.thread i with place := .closeDevice }
  | .closeDevice, .go _ => some (s.goto i .exited)
  | .exited, .go _ => some (s.goto i .deleted)
  | _, _ => none

/-- The kernel moves byte `j` of a request. -/
def transfer (device : ι → δ) (s : System ι δ β) (r : Request ι) (j : Nat) : System ι δ β :=
  let t := s.thread r.thread
  let disk := s.disk (device r.thread)
  match r.cb.op with
  | .read => s.setThread r.thread (t.store j (disk.byte (r.cb.offset + j)))
  | .write =>
      { s with
        disk := Function.update s.disk (device r.thread)
          (disk.write r.thread (r.cb.offset + j) (t.buffer j) (s.clock + 1))
        clock := s.clock + 1 }

/-- The answer `nbytes` says that all bytes have been moved. -/
def Honest (r : Request ι) (res : Int) : Prop := res = r.cb.nbytes → ∀ j < r.cb.nbytes, j ∈ r.moved

instance (r : Request ι) (res : Int) : Decidable (Honest r res) := by
  unfold Honest
  infer_instance

def next (device : ι → δ) (s : System ι δ β) : Label ι β → Option (System ι δ β)
  | .thread i a => s.threadStep i a
  | .move d n j =>
      match (s.requests d)[n]? with
      | none => none
      | some r =>
          if j < r.cb.nbytes then
            some { s.transfer device r j with
              requests :=
                Function.update s.requests d ((s.requests d).set n { r with moved := j :: r.moved }) }
          else none
  | .complete d n res =>
      match (s.requests d)[n]? with
      | none => none
      | some r =>
          if Honest r res then
            some { s with
              requests := Function.update s.requests d ((s.requests d).eraseIdx n)
              events := Function.update s.events d (s.events d ++ [⟨r.thread, r.cb, res⟩]) }
          else none

def run (device : ι → δ) (s : System ι δ β) (labels : List (Label ι β)) : Option (System ι δ β) :=
  labels.foldlM (System.next device) s

/-- No context has been made, and the threads are at the start of `Work`. -/
structure Initial (s : System ι δ β) : Prop where
  place : ∀ i, (s.thread i).place = .openDevice
  setups : ∀ i, (s.thread i).setups = 0
  since : ∀ i, (s.thread i).since = 0
  consistent : Consistent s.kernel
  calls : s.kernel.calls = []
  life : ∀ d, s.kernel.life d = .unborn
  requests : ∀ d, s.requests d = []
  events : ∀ d, s.events d = []

/-- The states of all runs. -/
def Reachable (device : ι → δ) (s : System ι δ β) : Prop :=
  ∃ s₀, Initial s₀ ∧ Relation.ReflTransGen (fun s s' => ∃ l, s.next device l = some s') s₀ s

theorem Reachable.run {device : ι → δ} {s s' : System ι δ β} (h : Reachable device s)
    {labels : List (Label ι β)} (hrun : s.run device labels = some s') : Reachable device s' := by
  induction labels generalizing s with
  | nil =>
      obtain rfl := Option.some.inj hrun
      exact h
  | cons l labels ih =>
      obtain ⟨t, hnext, hrest⟩ := Option.bind_eq_some_iff.mp hrun
      obtain ⟨s₀, hinitial, hsteps⟩ := h
      exact ih ⟨s₀, hinitial, hsteps.tail ⟨l, hnext⟩⟩ hrest

end System

end System

end StressAppTest.Disk.Async
