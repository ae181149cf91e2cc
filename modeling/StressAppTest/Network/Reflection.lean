import Mathlib.Data.List.Basic
import Mathlib.Logic.Function.Basic
import Mathlib.Logic.Relation

/-!
# A page and its reflection (`NetworkThread`, `NetworkSlaveThread`)

The master sends a page over the connection and receives it back from the slave. Each direction of
the connection is a queue of bytes, and every `send` and `recv` moves as many bytes as it likes, or
fails. The rest of the program shares the page queue and the memory with the master, but leaves the
pages that the master has in hand alone.
-/

namespace StressAppTest.Network

/-- The bytes of a page. -/
abbrev Page := List UInt8

/-- Where a page is: in the queue, with its state, or in the hand of a worker. -/
inductive Place where
  | valid
  | empty
  | out
  deriving DecidableEq, Repr

/-- A call of the page queue. -/
inductive QueueOp where
  | getValid (page : Nat)
  | getEmpty (page : Nat)
  | putValid (page : Nat)
  | putEmpty (page : Nat)
  deriving DecidableEq, Repr

/-- How `NetworkThread::Work` ends. -/
inductive Exit where
  | stopped
  | noSource
  | noDestination (src : Nat)
  | transfer (src dst : Nat)
  | noPush
  deriving DecidableEq, Repr

/-- Where `NetworkThread::Work` is; `n` is `page_length - size` of `SendPage` or `ReceivePage`. -/
inductive Master where
  | loop
  | source
  | destination (src : Nat)
  /-- Before `PutValid(&src)`, without a destination. -/
  | restore (src : Nat)
  /-- Before the check of the source. -/
  | check (src dst : Nat)
  | sending (src dst n : Nat)
  | receiving (src dst n : Nat)
  /-- Before `PutValid(&dst)`, after `ReceivePage` has returned true. -/
  | publish (src dst : Nat)
  /-- Before `PutEmpty(&src)`. -/
  | retire (src : Nat) (dstReturned : Bool)
  /-- Before `PutValid(&src)`, after a failed transfer. -/
  | bail (src dst : Nat)
  /-- Before `PutEmpty(&dst)`, after a failed transfer. -/
  | bailDst (src dst : Nat)
  | done (exit : Exit)

/-- Where `NetworkSlaveThread::Work` is; at its end it drops the bytes that it holds. -/
inductive Slave where
  | receiving (n : Nat)
  | sending (n : Nat)
  | done (dropped : List UInt8)

/-- The two threads, the connection, the page queue and the memory. `sent` are the pages passed to
`SendPage` and `received` those that `ReceivePage` has returned with true; `bytesSent` and
`bytesReceived` are what the calls of `send` and `recv` of the master have moved. -/
structure Net where
  master : Master
  slave : Slave
  localPage : Page
  up : List UInt8
  down : List UInt8
  place : Nat → Place
  mem : Nat → Page
  ops : List QueueOp
  sent : List Page
  received : List Page
  bytesSent : List UInt8
  bytesReceived : List UInt8

/-- What a thread is told: an answer of a condition, a page of the queue, the result of a `send` or
`recv`. A failed call returned 0 if `closed` and else -1. -/
inductive Answer where
  | go (ready : Bool)
  | page (page : Option Nat)
  | contents (page : Page)
  | transferred (k : Nat)
  | failed (stop closed : Bool) (err : Nat)

/-- The bytes of a buffer from `n` on are replaced by those that have come. -/
def write (buf : Page) (n : Nat) (data : List UInt8) : Page :=
  buf.take n ++ data ++ buf.drop (n + data.length)

/-- What `ReceivePage` does to the page of a failed `recv`: it ends the text that it prints. -/
def terminate (buf : Page) (n : Nat) (stop closed : Bool) (err : Nat) : Page :=
  if stop && closed && err != 0 && decide (0 < n) && decide (n < 512) then buf.set n 0 else buf

variable (pageLength : Nat)

/-- `PutValid` and `PutEmpty`: a page that is out goes back. -/
def put (s : Net) (page : Nat) (kind : Place) (op : QueueOp) : Net × Bool :=
  if s.place page = .out then
    ({ s with place := Function.update s.place page kind, ops := s.ops ++ [op] }, true)
  else (s, false)

/-- A `send` of the master. -/
def masterSend (s : Net) (src dst n : Nat) : Answer → Option Net
  | .transferred k =>
      if 0 < k ∧ n + k ≤ pageLength then
        some { s with
          master := .sending src dst (n + k)
          up := s.up ++ ((s.mem src).drop n).take k
          bytesSent := s.bytesSent ++ ((s.mem src).drop n).take k }
      else none
  | .failed _ _ _ => some { s with master := .bail src dst }
  | _ => none

/-- A `recv` of the master. -/
def masterRecv (s : Net) (src dst n : Nat) : Answer → Option Net
  | .transferred k =>
      if 0 < k ∧ n + k ≤ pageLength ∧ k ≤ s.down.length then
        some { s with
          master := .receiving src dst (n + k)
          mem := Function.update s.mem dst (write (s.mem dst) n (s.down.take k))
          down := s.down.drop k
          bytesReceived := s.bytesReceived ++ s.down.take k }
      else none
  | .failed stop closed err =>
      some { s with
        master := .bail src dst
        mem := Function.update s.mem dst (terminate (s.mem dst) n stop closed err) }
  | _ => none

/-- `NetworkThread::Work` -/
def masterStep (s : Net) (a : Answer) : Option Net :=
  match s.master, a with
  | .loop, .go ready => some { s with master := if ready then .source else .done .stopped }
  | .source, .page none => some { s with master := .done .noSource }
  | .source, .page (some src) =>
      if s.place src = .valid then
        some { s with
          master := .destination src
          place := Function.update s.place src .out
          ops := s.ops ++ [.getValid src] }
      else none
  | .destination src, .page none => some { s with master := .restore src }
  | .destination src, .page (some dst) =>
      if s.place dst = .empty then
        some { s with
          master := .check src dst
          place := Function.update s.place dst .out
          ops := s.ops ++ [.getEmpty dst] }
      else none
  | .restore src, .go _ =>
      some { (put s src .valid (.putValid src)).1 with master := .done (.noDestination src) }
  | .check src dst, .contents page =>
      -- a strict run checks the source, and the check may correct it
      if page.length = pageLength then
        some { s with
          master := .sending src dst 0
          mem := Function.update s.mem src page
          sent := s.sent ++ [page] }
      else none
  | .sending src dst n, a =>
      if n = pageLength then some { s with master := .receiving src dst 0 }
      else masterSend pageLength s src dst n a
  | .receiving src dst n, a =>
      if n = pageLength then
        some { s with master := .publish src dst, received := s.received ++ [s.mem dst] }
      else masterRecv pageLength s src dst n a
  | .publish src dst, .go _ =>
      let r := put s dst .valid (.putValid dst)
      some { r.1 with master := .retire src r.2 }
  | .retire src dstReturned, .go _ =>
      let r := put s src .empty (.putEmpty src)
      some { r.1 with master := if dstReturned && r.2 then .loop else .done .noPush }
  | .bail src dst, .go _ =>
      some { (put s src .valid (.putValid src)).1 with master := .bailDst src dst }
  | .bailDst src dst, .go _ =>
      some { (put s dst .empty (.putEmpty dst)).1 with master := .done (.transfer src dst) }
  | _, _ => none

/-- `NetworkSlaveThread::Work` -/
def slaveStep (s : Net) (a : Answer) : Option Net :=
  match s.slave, a with
  | .receiving n, a =>
      if n = pageLength then some { s with slave := .sending 0 }
      else
        match a with
        | .transferred k =>
            if 0 < k ∧ n + k ≤ pageLength ∧ k ≤ s.up.length then
              some { s with
                slave := .receiving (n + k)
                localPage := write s.localPage n (s.up.take k)
                up := s.up.drop k }
            else none
        | .failed _ _ _ => some { s with slave := .done (s.localPage.take n) }
        | _ => none
  | .sending n, a =>
      if n = pageLength then some { s with slave := .receiving 0 }
      else
        match a with
        | .transferred k =>
            if 0 < k ∧ n + k ≤ pageLength then
              some { s with
                slave := .sending (n + k)
                down := s.down ++ (s.localPage.drop n).take k }
            else none
        | .failed _ _ _ => some { s with slave := .done (s.localPage.drop n) }
        | _ => none
  | .done _, _ => none

/-- The pages that the master has in hand. -/
def Master.hand : Master → List Nat
  | .destination src | .restore src | .retire src _ => [src]
  | .check src dst | .sending src dst _ | .receiving src dst _ | .publish src dst | .bail src dst =>
      [src, dst]
  | .bailDst _ dst => [dst]
  | _ => []

/-- A step of the rest of the program. -/
def Others (s s' : Net) : Prop :=
  ∃ (place : Nat → Place) (mem : Nat → Page), s' = { s with place := place, mem := mem } ∧
    (∀ p ∈ s.master.hand, place p = s.place p ∧ mem p = s.mem p) ∧ ∀ p, (mem p).length = pageLength

def Step (s s' : Net) : Prop :=
  (∃ a, masterStep pageLength s a = some s') ∨ (∃ a, slaveStep pageLength s a = some s') ∨
    Others pageLength s s'

/-- A new connection: the queue and the memory as they are, and a buffer of the slave. -/
def Net.start (place : Nat → Place) (mem : Nat → Page) (localPage : Page) : Net :=
  ⟨.loop, .receiving 0, localPage, [], [], place, mem, [], [], [], [], []⟩

/-- The states of all runs. -/
def Reachable (s : Net) : Prop :=
  ∃ place mem localPage, (∀ p, (mem p).length = pageLength) ∧ localPage.length = pageLength ∧
    Relation.ReflTransGen (Step pageLength) (Net.start place mem localPage) s

variable {pageLength}

theorem Reachable.master {s s' : Net} (h : Reachable pageLength s) (a : Answer)
    (hstep : masterStep pageLength s a = some s') : Reachable pageLength s' := by
  obtain ⟨place, mem, localPage, hmem, hlocal, hrun⟩ := h
  exact ⟨place, mem, localPage, hmem, hlocal, hrun.tail (Or.inl ⟨a, hstep⟩)⟩

theorem Reachable.slave {s s' : Net} (h : Reachable pageLength s) (a : Answer)
    (hstep : slaveStep pageLength s a = some s') : Reachable pageLength s' := by
  obtain ⟨place, mem, localPage, hmem, hlocal, hrun⟩ := h
  exact ⟨place, mem, localPage, hmem, hlocal, hrun.tail (Or.inr (Or.inl ⟨a, hstep⟩))⟩

end StressAppTest.Network
