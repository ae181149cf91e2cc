import Mathlib.Logic.Relation
import StressAppTest.Library.GuardedHandle

/-!
# The listener and its slaves (`NetworkListenThread`, `NetworkSlaveThread`)

`NetworkListenThread::Work` accepts connections and starts a slave thread for each of them. At its end
it shuts the connections down, so that slaves that wait in `recv` come back, joins the slaves and
deletes them. The socket of a slave may be shut down by the listener while the slave closes it, and
both do so under its `socket_lock_`, one step of a critical section at a time. A descriptor that has
been closed goes to whoever opens a file next, also in another part of the program.

A `send` on a connection that has been shut down fails with `EPIPE`, and ends the process unless
`SIGPIPE` is ignored (`ignored`). The program leaves the signal as it is.
-/

namespace StressAppTest.Network.Listener

open Descriptors (Op Kernel Life)

/-- What a descriptor of the process refers to. -/
inductive File where
  /-- The socket that the listener listens on. -/
  | listening
  /-- The connection of a slave. -/
  | connection (slave : Nat)
  /-- A file of another part of the program. -/
  | other (n : Nat)
  deriving DecidableEq, Repr

/-- The system calls on a socket that do not close it. -/
inductive Way where
  | listen
  | select
  | accept
  | recv
  | send
  | shutdown
  deriving DecidableEq, Repr

/-- The threads that may hold the `socket_lock_` of a slave. -/
inductive Party where
  | listener
  | slave
  deriving DecidableEq, Repr

/-- Where a thread is in `ShutdownSocket` or `CloseOwnedSocket`. -/
abbrev Section := GuardedHandle.Place

/-- Where `NetworkSlaveThread::Work` is; `sock` is its local copy of `sock_`, and `n` is
`page_length - size` of `ReceivePage` or `SendPage`. -/
inductive SlavePc where
  /-- `pthread_create` has failed. -/
  | unspawned
  | start
  | memalign (sock : Nat)
  | receiving (sock n loops : Nat)
  | sending (sock n loops : Nat)
  /-- In `CloseOwnedSocket`. -/
  | closing (place : Section)
  /-- Before `RemoveSelf`. -/
  | removeSelf
  | exited
  deriving DecidableEq, Repr

/-- The slave goes on in `CloseOwnedSocket`, or returns from `Work`. -/
def SlavePc.closeOwned : Option Section → SlavePc
  | some place => .closing place
  | none => .removeSelf

/-- A `ChildWorker`; `reflected` counts the pages that the slave has sent back. -/
structure Child where
  sock : Nat
  lock : Option Party
  pc : SlavePc
  status : Bool
  pagesCopied : Nat
  deleted : Bool
  reflected : Nat

/-- The slave that `SpawnSlave` makes for a connection, after `pthread_create`. -/
def newChild (newsock : Nat) (created : Bool) : Child :=
  ⟨newsock, none, if created then .start else .unspawned, false, 0, false, 0⟩

/-- Where `NetworkListenThread::Work` is. -/
inductive ListenPc where
  | createSocket
  | listen
  /-- Before the test of the loop. -/
  | loop
  /-- In `Wait`. -/
  | wait
  /-- In `GetConnection`. -/
  | accept
  /-- In `SpawnSlave`, before `pthread_create`. -/
  | spawn (newsock : Nat)
  /-- In `SpawnSlave`, in `CloseOwnedSocket` after a failed `pthread_create`. -/
  | unspawned (place : Section)
  /-- In the destructor of a slave that has not been spawned. -/
  | discard (place : Section)
  /-- In `ShutdownSocket` of a slave. -/
  | shutdown (i : Nat) (place : Section)
  /-- In `JoinThread` of a slave. -/
  | join (i : Nat)
  /-- In `CloseOwnedSocket` of a slave that has been joined. -/
  | close (i : Nat) (place : Section)
  /-- Before the status and the pages of a slave are collected. -/
  | collect (i : Nat)
  /-- In the destructor of a slave. -/
  | delete (i : Nat) (place : Section)
  /-- Before the last `CloseSocket`. -/
  | closeSocket
  | done
  deriving DecidableEq, Repr

/-- What has gone wrong. -/
inductive Fault where
  | socket
  | listen
  | select
  | accept
  | spawn
  /-- `posix_memalign` of a slave. -/
  | memalign (slave : Nat)
  /-- A connection came under descriptor 0, which the slave takes for no socket. -/
  | noSocket (slave : Nat)
  deriving DecidableEq, Repr

/-- The listener, its slaves and the kernel. `workers` is the size of `child_workers_`, `discarded` says
that a slave that has not been spawned has been deleted, `shut` are the connections that have been
shut down, `killed` says that `SIGPIPE` has ended the process. -/
structure Server where
  pc : ListenPc
  sock : Nat
  result : Bool
  status : Bool
  pagesCopied : Nat
  workers : Nat
  child : Nat → Child
  discarded : Bool
  kernel : Kernel Way File
  shut : Nat → Bool
  killed : Bool
  faults : List Fault

/-- What a thread is told. -/
inductive Answer where
  /-- The answer of a condition, or whether a call has succeeded. -/
  | go (yes : Bool)
  /-- A new descriptor. -/
  | newFd (fd : Nat)
  /-- `EINTR`. -/
  | interrupted
  | transferred (k : Nat)
  | failed
  /-- `EPIPE`. -/
  | pipe

/-- A step of one thread, or another part of the program opens or closes a file of its own. -/
inductive Label where
  | listener (a : Answer)
  | slave (i : Nat) (a : Answer)
  | openOther (fd n : Nat)
  | closeOther (fd n : Nat)

/-- No file of the listener has been opened, and no call has been made. -/
structure Fresh (kernel : Kernel Way File) : Prop where
  consistent : Descriptors.Consistent kernel
  calls : kernel.calls = []
  listening : kernel.life .listening = .unborn
  connection : ∀ i, kernel.life (.connection i) = .unborn

namespace Server

/-- A system call other than `close`; only `shutdown` changes the connection that it hits. -/
def use (s : Server) (way : Way) (meant : File) (fd : Nat) : Server :=
  { s with
    kernel := s.kernel.call (.use way) meant fd
    shut := match way, s.kernel.file fd with
      | .shutdown, some (.connection i) => Function.update s.shut i true
      | _, _ => s.shut }

/-- `CloseSocket` -/
def close (s : Server) (meant : File) (fd : Nat) : Server :=
  { s with kernel := s.kernel.call .close meant fd }

def setChild (s : Server) (i : Nat) (c : Child) : Server :=
  { s with child := Function.update s.child i c }

def setPc (s : Server) (pc : ListenPc) : Server := { s with pc := pc }

/-- A step of `ShutdownSocket` (`closing = false`) or `CloseOwnedSocket` (`closing = true`) of slave `i`,
with the next place in the section, if it has not ended. -/
def section_ (s : Server) (i : Nat) (party : Party) (closing : Bool) :
    Section → Option (Server × Option Section)
  | .lock =>
      if (s.child i).lock = none then
        some (s.setChild i { s.child i with lock := some party }, some .test)
      else none
  | .test => some (s, some (if 0 < (s.child i).sock then .call else .unlock))
  | .call =>
      if closing then some (s.close (.connection i) (s.child i).sock, some .clear)
      else some (s.use .shutdown (.connection i) (s.child i).sock, some .unlock)
  | .clear => some (s.setChild i { s.child i with sock := 0 }, some .unlock)
  | .unlock => some (s.setChild i { s.child i with lock := none }, none)

/-! ## The listener -/

/-- The first loop of `ReapSlaves`, the second one, the loop that deletes the slaves, and what comes
after it. -/
def deleteFrom (s : Server) (i : Nat) : ListenPc :=
  if i < s.workers then .delete i .lock else .closeSocket

def joinFrom (s : Server) (i : Nat) : ListenPc := if i < s.workers then .join i else s.deleteFrom 0

def shutdownFrom (s : Server) (i : Nat) : ListenPc :=
  if i < s.workers then .shutdown i .lock else s.joinFrom 0

/-- The listener goes on in a critical section, or with what comes after it. -/
def advance (inside : Section → ListenPc) (after : Server → Server) :
    Server × Option Section → Server
  | (s, some place) => s.setPc (inside place)
  | (s, none) => after s

/-- The end of the loop of `Work` after a failure. -/
def abandon (s : Server) (fault : Fault) : Server :=
  { s with result := false, faults := s.faults ++ [fault], pc := s.shutdownFrom 0 }

/-- `NetworkListenThread::Work` -/
def listenerStep (s : Server) (a : Answer) : Option Server :=
  match s.pc, a with
  | .createSocket, .newFd fd =>
      if s.kernel.file fd = none then
        some { s with pc := .listen, sock := fd, kernel := s.kernel.openAt fd .listening }
      else none
  | .createSocket, .failed =>
      some { s with
        pc := .done, status := false, pagesCopied := 0, result := false,
        faults := s.faults ++ [.socket] }
  | .listen, .go true => some ((s.use .listen .listening s.sock).setPc .loop)
  | .listen, .go false =>
      let s := s.use .listen .listening s.sock
      some { s with
        pc := .closeSocket, status := false, pagesCopied := 0, result := false,
        faults := s.faults ++ [.listen] }
  | .loop, .go ready => some (s.setPc (if ready then .wait else s.shutdownFrom 0))
  | .wait, .go ready =>
      some ((s.use .select .listening s.sock).setPc (if ready then .accept else .loop))
  | .wait, .interrupted => some (s.use .select .listening s.sock)
  | .wait, .failed => some ((s.use .select .listening s.sock).abandon .select)
  | .accept, .newFd fd =>
      if s.kernel.file fd = none then
        let s := s.use .accept .listening s.sock
        some { s with pc := .spawn fd, kernel := s.kernel.openAt fd (.connection s.workers) }
      else none
  | .accept, .failed =>
      let s := (s.use .accept .listening s.sock).abandon .accept
      some { s with status := false, pagesCopied := 0 }
  | .spawn newsock, .go created =>
      let s := s.setChild s.workers (newChild newsock created)
      some (if created then { s with pc := .loop, workers := s.workers + 1 }
        else s.setPc (.unspawned .lock))
  | .unspawned place, .go _ =>
      (s.section_ s.workers .listener true place).map
        (advance .unspawned fun s => s.setPc (.discard .lock))
  | .discard place, .go _ =>
      (s.section_ s.workers .listener true place).map (advance .discard fun s =>
        abandon { s.setChild s.workers { s.child s.workers with deleted := true } with
          discarded := true } .spawn)
  | .shutdown i place, .go _ =>
      (s.section_ i .listener false place).map
        (advance (.shutdown i) fun s => s.setPc (s.shutdownFrom (i + 1)))
  | .join i, .go _ => if (s.child i).pc = .exited then some (s.setPc (.close i .lock)) else none
  | .close i place, .go _ =>
      (s.section_ i .listener true place).map (advance (.close i) fun s => s.setPc (.collect i))
  | .collect i, .go _ =>
      some { s with
        result := s.result && (s.child i).status
        pagesCopied := s.pagesCopied + (s.child i).pagesCopied
        pc := s.joinFrom (i + 1) }
  | .delete i place, .go _ =>
      (s.section_ i .listener true place).map (advance (.delete i) fun s =>
        (s.setChild i { s.child i with deleted := true }).setPc (s.deleteFrom (i + 1)))
  | .closeSocket, .go _ =>
      some { s.close .listening s.sock with pc := .done, status := s.result }
  | _, _ => none

/-! ## A slave -/

/-- The slave goes on at another place. -/
def setSlave (s : Server) (i : Nat) (pc : SlavePc) : Server :=
  s.setChild i { s.child i with pc := pc }

/-- The end of the loop of `NetworkSlaveThread::Work`. -/
def finish (s : Server) (i loops : Nat) : Server :=
  s.setChild i { s.child i with pagesCopied := loops, status := true, pc := .closing .lock }

variable (pageLength : Nat) (ignored : Bool)

/-- `NetworkSlaveThread::Work` -/
def slaveStep (s : Server) (i : Nat) (a : Answer) : Option Server :=
  match (s.child i).pc, a with
  | .start, .go _ =>
      if (s.child i).sock = 0 then
        some { s.setChild i { s.child i with status := false, pc := .removeSelf } with
          faults := s.faults ++ [.noSocket i] }
      else some (s.setSlave i (.memalign (s.child i).sock))
  | .memalign sock, .go true => some (s.setSlave i (.receiving sock 0 0))
  | .memalign _, .go false =>
      some { s.setChild i { s.child i with status := false, pc := .closing .lock } with
        faults := s.faults ++ [.memalign i] }
  | .receiving sock n loops, a =>
      if n = pageLength then some (s.setSlave i (.sending sock 0 loops))
      else
        match a with
        | .transferred k =>
            if 0 < k ∧ n + k ≤ pageLength then
              some ((s.use .recv (.connection i) sock).setSlave i (.receiving sock (n + k) loops))
            else none
        | .failed => some ((s.use .recv (.connection i) sock).finish i loops)
        | _ => none
  | .sending sock n loops, a =>
      if n = pageLength then
        some (s.setChild i { s.child i with
          pc := .receiving sock 0 (loops + 1), reflected := (s.child i).reflected + 1 })
      else
        match a with
        | .transferred k =>
            -- the kernel takes no data for a connection that has been shut down
            if 0 < k ∧ n + k ≤ pageLength ∧ s.shut i = false then
              some ((s.use .send (.connection i) sock).setSlave i (.sending sock (n + k) loops))
            else none
        | .failed =>
            if s.shut i then none else some ((s.use .send (.connection i) sock).finish i loops)
        | .pipe =>
            if ignored then some ((s.use .send (.connection i) sock).finish i loops)
            else some { s.use .send (.connection i) sock with killed := true }
        | _ => none
  | .closing place, .go _ =>
      (s.section_ i .slave true place).map fun r => r.1.setSlave i (SlavePc.closeOwned r.2)
  | .removeSelf, .go _ => some (s.setSlave i .exited)
  | _, _ => none

/-! ## All threads -/

def next (s : Server) : Label → Option Server
  | .listener a => if s.killed then none else s.listenerStep a
  | .slave i a => if s.killed then none else s.slaveStep pageLength ignored i a
  | .openOther fd n =>
      if s.kernel.file fd = none ∧ s.kernel.life (.other n) = .unborn then
        some { s with kernel := s.kernel.openAt fd (.other n) }
      else none
  | .closeOther fd n =>
      if s.kernel.file fd = some (.other n) then some (s.close (.other n) fd) else none

/-- The process at the start of `NetworkListenThread::Work`, with its files. -/
def start (kernel : Kernel Way File) : Server :=
  ⟨.createSocket, 0, true, false, 0, 0, fun _ => newChild 0 false, false, kernel, fun _ => false, false, []⟩

/-- The states of all runs. -/
def Reachable (s : Server) : Prop :=
  ∃ kernel, Fresh kernel ∧
    Relation.ReflTransGen (fun s s' => ∃ l, next pageLength ignored s l = some s') (start kernel) s

/-- A run. -/
def run (s : Server) : List Label → Option Server
  | [] => some s
  | l :: labels => (next pageLength ignored s l).bind fun s => s.run labels

variable {pageLength ignored}

theorem Reachable.run {s s' : Server} (h : Reachable pageLength ignored s) {labels : List Label}
    (hrun : s.run pageLength ignored labels = some s') : Reachable pageLength ignored s' := by
  induction labels generalizing s with
  | nil =>
      obtain rfl := Option.some.inj hrun
      exact h
  | cons l labels ih =>
      obtain ⟨s₁, hstep, hrest⟩ := Option.bind_eq_some_iff.mp hrun
      obtain ⟨kernel, hfresh, hsteps⟩ := h
      exact ih ⟨kernel, hfresh, hsteps.tail ⟨l, hstep⟩⟩ hrest

theorem Reachable.start {kernel : Kernel Way File} (h : Fresh kernel) :
    Reachable pageLength ignored (Server.start kernel) := ⟨kernel, h, .refl⟩

end Server

/-- A process without open files. -/
def noFiles : Kernel Way File := ⟨fun _ => none, fun _ => .unborn, []⟩

theorem fresh_noFiles : Fresh noFiles := by
  refine ⟨⟨?_, ?_⟩, rfl, rfl, fun _ => rfl⟩
  · intro fd f
    exact ⟨nofun, nofun⟩
  · intro f
    rfl

end StressAppTest.Network.Listener
