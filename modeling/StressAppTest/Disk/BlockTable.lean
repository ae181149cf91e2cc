import Mathlib.Data.Fintype.Basic
import Mathlib.Logic.Relation
import StressAppTest.Library.SlotIndex

/-!
# The disk block table (`disk_blocks.h`, `disk_blocks.cc`)

One writer gets blocks from the table and removes them; readers get random blocks and release them.
The critical sections of `data_mutex_` are single steps, and so are the parts of `GetUnusedBlock`
and `RemoveBlock` that read the table without the lock. A block object is a number, and the heap
says which of them exist: an operation that reaches for a deleted object, or fails an assertion, has
no next state.
-/

namespace StressAppTest.Disk

/-- `class BlockData`, with the fields the table uses. -/
structure BlockData where
  address : Int
  references : Int
  initialized : Bool

/-- `struct StorageData` -/
structure StorageData where
  block : Nat
  pos : Nat

/-- `kBlockRetry` -/
def kBlockRetry : Nat := 100

/-- Where the writer is. -/
inductive Writer where
  | idle
  /-- In the loop of `GetUnusedBlock`. -/
  | searching (block tries : Nat)
  /-- After the loop, with a free sector. -/
  | found (block : Nat) (sector : Int)
  /-- In `InsertOnStructure`, with `sd->pos`, before the lock. -/
  | inserting (block : Nat) (sector : Int) (pos : Nat)
  /-- In `RemoveBlock`, with the two iterators, before the lock. -/
  | removing (block : Nat) (address : Int) (currPos : Nat) (lastAddress : Int)

/-- `class DiskBlockTable` with its threads: the readers `τ` hold at most one block each, and `own`
are the blocks that the writer has got and not removed. -/
structure Table (τ : Type) where
  posToAddr : List Int
  addrToBlock : Int → Option StorageData
  size : Nat
  heap : Nat → Option BlockData
  fresh : Nat
  writer : Writer
  own : List Nat
  holding : τ → Option Nat

def initial (τ : Type) : Table τ := ⟨[], fun _ => none, 0, fun _ => none, 0, .idle, [], fun _ => none⟩

/-- The operations. `check` tries one random sector, of which `fits` says whether it lies in its
segment and on the device. -/
inductive Event (τ : Type) where
  | alloc
  | check (sector : Int) (fits : Bool)
  | giveUp
  | prepare
  | insert
  | setInitialized (block : Nat)
  | useOwn (block : Nat)
  | beginRemove (block : Nat)
  | remove
  | get (t : τ) (random : Nat)
  | useHeld (t : τ)
  | release (t : τ)

variable {τ : Type} [DecidableEq τ]

/-- The calls that the threads can be in. -/
def Enabled (s : Table τ) : Event τ → Prop
  | .alloc => s.writer = .idle
  | .check _ _ => ∃ block tries, s.writer = .searching block tries ∧ tries < kBlockRetry
  | .giveUp => ∃ block tries, s.writer = .searching block tries ∧ kBlockRetry ≤ tries
  | .prepare => ∃ block sector, s.writer = .found block sector
  | .insert => ∃ block sector pos, s.writer = .inserting block sector pos
  | .setInitialized block | .useOwn block | .beginRemove block => s.writer = .idle ∧ block ∈ s.own
  | .remove => ∃ block address currPos lastAddress,
      s.writer = .removing block address currPos lastAddress
  | .get t _ => s.holding t = none
  | .useHeld t | .release t => (s.holding t).isSome

/-- `new BlockData()` in `GetUnusedBlock`. -/
def alloc (s : Table τ) : Table τ :=
  { s with
    heap := Function.update s.heap s.fresh (some ⟨0, 0, false⟩)
    fresh := s.fresh + 1
    writer := .searching s.fresh 0 }

/-- A pass of the loop of `GetUnusedBlock`. -/
def check (s : Table τ) (block tries : Nat) (sector : Int) (fits : Bool) : Table τ :=
  if fits && (s.addrToBlock sector).isNone then { s with writer := .found block sector }
  else { s with writer := .searching block (tries + 1) }

/-- `delete block` at the end of `GetUnusedBlock`. -/
def giveUp (s : Table τ) (block : Nat) : Option (Table τ) := do
  let _ ← s.heap block
  return { s with heap := Function.update s.heap block none, writer := .idle }

/-- The critical section of `InsertOnStructure`. The address and the counter of the block are set
before, while no other thread can see it. -/
def insert (s : Table τ) (block : Nat) (sector : Int) (pos : Nat) : Option (Table τ) := do
  let data ← s.heap block
  return { s with
    posToAddr := SlotIndex.push s.posToAddr s.size sector
    addrToBlock := Function.update s.addrToBlock sector (some ⟨block, pos⟩)
    size := s.size + 1
    heap := Function.update s.heap block
      (some { data with address := sector, references := data.references + 1 })
    writer := .idle
    own := s.own ++ [block] }

/-- `set_initialized` -/
def setInitialized (s : Table τ) (block : Nat) : Option (Table τ) := do
  let data ← s.heap block
  return { s with heap := Function.update s.heap block (some { data with initialized := true }) }

/-- The part of `RemoveBlock` before the lock. -/
def beginRemove (s : Table τ) (block : Nat) : Option (Table τ) := do
  let data ← s.heap block
  match s.addrToBlock data.address with
  | none => return s
  | some sd =>
      let lastAddress ← s.posToAddr[s.size - 1]?
      if s.size = 0 then none
      else do
        let _ ← s.addrToBlock lastAddress
        return { s with writer := .removing block data.address sd.pos lastAddress }

/-- The critical section of `RemoveBlock`. -/
def remove (s : Table τ) (block : Nat) (address : Int) (currPos : Nat) (lastAddress : Int) :
    Option (Table τ) := do
  let last ← s.posToAddr[s.size - 1]?
  let lastData ← s.addrToBlock lastAddress
  let data ← s.heap block
  let references := data.references - 1
  return { s with
    posToAddr := s.posToAddr.set currPos last
    addrToBlock := Function.update
      (Function.update s.addrToBlock lastAddress (some { lastData with pos := currPos })) address none
    size := s.size - 1
    heap := Function.update s.heap block
      (if references = 0 then none else some { data with references := references })
    writer := .idle
    own := s.own.erase block }

/-- `GetRandomBlock`: with an empty table it times out. -/
def getRandomBlock (s : Table τ) (t : τ) (random : Nat) : Option (Table τ) :=
  if s.size = 0 then some s
  else do
    let address ← s.posToAddr[random % s.size]?
    let sd ← s.addrToBlock address
    let data ← s.heap sd.block
    if data.initialized then
      return { s with
        heap := Function.update s.heap sd.block (some { data with references := data.references + 1 })
        holding := Function.update s.holding t (some sd.block) }
    else return s

/-- `ReleaseBlock` -/
def releaseBlock (s : Table τ) (t : τ) (block : Nat) : Option (Table τ) := do
  let data ← s.heap block
  return { s with
    heap := if data.references = 1 then Function.update s.heap block none
      else if 0 < data.references then
        Function.update s.heap block (some { data with references := data.references - 1 })
      else s.heap
    holding := Function.update s.holding t none }

/-- The next state, if no deleted object is used and no assertion fails. -/
def next (s : Table τ) : Event τ → Option (Table τ)
  | .alloc => some (alloc s)
  | .check sector fits =>
      match s.writer with
      | .searching block tries => some (check s block tries sector fits)
      | _ => none
  | .giveUp =>
      match s.writer with
      | .searching block _ => giveUp s block
      | _ => none
  | .prepare =>
      match s.writer with
      | .found block sector => some { s with writer := .inserting block sector s.size }
      | _ => none
  | .insert =>
      match s.writer with
      | .inserting block sector pos => insert s block sector pos
      | _ => none
  | .setInitialized block => setInitialized s block
  | .useOwn block => (s.heap block).map fun _ => s
  | .beginRemove block => beginRemove s block
  | .remove =>
      match s.writer with
      | .removing block address currPos lastAddress => remove s block address currPos lastAddress
      | _ => none
  | .get t random => getRandomBlock s t random
  | .useHeld t => (s.holding t).bind fun block => (s.heap block).map fun _ => s
  | .release t => (s.holding t).bind fun block => releaseBlock s t block

def Step (s s' : Table τ) : Prop := ∃ e, Enabled s e ∧ next s e = some s'

/-- The states of all runs. -/
def Reachable (s : Table τ) : Prop := Relation.ReflTransGen Step (initial τ) s

theorem Reachable.next {s s' : Table τ} (h : Reachable s) (e : Event τ) (he : Enabled s e)
    (hnext : next s e = some s') : Reachable s' := Relation.ReflTransGen.tail h ⟨e, he, hnext⟩

end StressAppTest.Disk
