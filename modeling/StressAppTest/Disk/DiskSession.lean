import StressAppTest.Disk.BlockBuffer
import StressAppTest.Disk.DiskThread
import StressAppTest.Disk.Placement
import StressAppTest.Library.StoredObjects

/-!
# A session of a disk thread

The threads and the table, the places that `GetUnusedBlock` chooses, and the contents of the disk: the
writes of `WriteBlockToDisk` and the verdicts of `ValidateBlockOnDisk`, over whole runs. The disk loses
words of its own accord, at any time. A write that fails leaves anything in the place of its block, and a
read can fail after any number of chunks.

`WriteBlockToDisk` and `ValidateBlockOnDisk` are single steps: their requests are in flight only while
they run, and no other thread writes to the disk.
-/

namespace StressAppTest.Disk

/-- The parameters of a session; `buffer` is the word address of the block buffer. -/
structure Setup where
  config : Config
  sat : Sat
  deviceSectors : Int
  segmentSize : Int
  writeBlockSize : Nat
  readBlockSize : Nat
  buffer : Nat

/-- What `DiskBlockTable::SetParameters` is given, with `kSectorSize`. -/
def Setup.parameters (c : Setup) : Parameters := ⟨512, c.writeBlockSize, c.deviceSectors, c.segmentSize⟩

/-- The parameters are accepted, a block fits into the buffer, and there are no tags. -/
structure Setup.Valid (c : Setup) : Prop where
  parameters : c.parameters.Valid
  sector : 512 ∣ c.readBlockSize
  dvd : c.readBlockSize ∣ c.writeBlockSize
  length : c.writeBlockSize ≤ c.sat.pageLength
  untagged : c.sat.tagMode = false

/-- The state: `pattern` are the patterns of the blocks, `found` the errors that `CheckRegion` has returned,
and `lost` the words that the disk has lost. -/
structure Session (τ : Type) where
  system : System τ
  segment : Int
  requested : Int → Int
  disk : Mem
  buf : Mem
  pattern : Nat → Pattern
  errorcount : Nat
  found : Nat
  lost : Nat

inductive Session.Label (τ : Type) where
  /-- `GetUnusedBlock(segment)` is called. -/
  | request (segment : Int)
  /-- It tries the sector of a random number. -/
  | tryRandom (random : Int)
  /-- `WriteBlockToDisk`, with the page that `GetValid` gives and the pattern of `GetRandomPattern`. -/
  | write (page : Option (Nat × Pattern)) (pages : Mem) (random : Pattern)
  /-- The same, with a write that fails and leaves these words. -/
  | writeFails (page : Option (Nat × Pattern)) (pages : Mem) (random : Pattern) (words : Nat → Word64)
  /-- `ValidateBlockOnDisk`, in which so many passes can read the disk. -/
  | validate (random : Nat → Nat) (passes : Nat)
  | lose (a : Nat) (w : Word64)
  /-- Another step of the threads. -/
  | other (l : Disk.Label τ)

/-- The first passes of the loop of `ValidateBlockOnDisk`. -/
def readPasses (sat : Sat) (b : BlockRead) (random : Nat → Nat) (passes : Nat) (s : ReadState) : ReadState :=
  forUpTo passes (fun k s => if s.blocks = 0 then s else readChunk sat b (random k) s) s

variable {τ : Type} [DecidableEq τ]

namespace Session

def initial (τ : Type) (disk buf : Mem) : Session τ :=
  ⟨System.initial τ, 0, fun _ => 0, disk, buf, fun _ => .ones, 0, 0, 0⟩

/-- The steps that are not those of `GetUnusedBlock`, `WriteBlockToDisk` and `ValidateBlockOnDisk`. -/
def isOther (pc : Pc) : Disk.Label τ → Bool
  | .work _ =>
      match pc with
      | .writing _ | .validating _ => false
      | _ => true
  | .table .alloc | .table (.check _ _) => false
  | .table _ => true

/-- The segments that the blocks were requested for. -/
def requests (s : Session τ) : Disk.Label τ → Int → Int
  | .table .insert =>
      match s.system.table.writer with
      | .inserting _ sector _ => Function.update s.requested sector s.segment
      | _ => s.requested
  | _ => s.requested

/-- `WriteBlockToDisk`; `stored` are the words that come to the disk, from those of the buffer. -/
def writeStep (c : Setup) (s : Session τ) (page : Option (Nat × Pattern)) (pages : Mem) (random : Pattern)
    (ok : Bool) (stored : Mem → Mem) : Option (Session τ) :=
  match s.system.pc with
  | .writing block =>
      match s.system.table.heap block with
      | none => none
      | some data =>
          let w := fillBuffer s.buf pages c.buffer c.writeBlockSize page random
          (s.system.next c.config (.work ok)).map fun system =>
            { s with
              system := system
              buf := w.1
              pattern := Function.update s.pattern block w.2
              disk := writeBlock s.disk (stored w.1) c.buffer data.address.toNat c.writeBlockSize }
  | _ => none

/-- What `ValidateBlockOnDisk` reads. -/
def reading (c : Setup) (s : Session τ) (block : Nat) (data : BlockData) : BlockRead where
  disk := s.disk
  buffer := c.buffer
  address := data.address.toNat
  readBlockSize := c.readBlockSize
  pattern := s.pattern block
  nonDestructive := c.config.nonDestructive

/-- The passes of its loop. -/
def passes (c : Setup) (s : Session τ) (block : Nat) (data : BlockData) (random : Nat → Nat) (n : Nat) :
    ReadState :=
  readPasses c.sat (s.reading c block data) random n
    ⟨s.buf, 0, c.writeBlockSize / c.readBlockSize, 0, 0, []⟩

/-- `ValidateBlockOnDisk`, which returns true when it has read the whole block. -/
def validateStep (c : Setup) (s : Session τ) (random : Nat → Nat) (n : Nat) : Option (Session τ) :=
  match s.system.pc with
  | .validating block =>
      match s.system.table.heap block with
      | none => none
      | some data =>
          let r := s.passes c block data random n
          (s.system.next c.config (.work (r.blocks == 0))).map fun system =>
            { s with
              system := system
              buf := r.buf
              errorcount := s.errorcount + r.errorcount
              found := s.found + r.found }
  | _ => none

def next (c : Setup) (s : Session τ) : Session.Label τ → Option (Session τ)
  | .request segment =>
      if 0 ≤ segment then
        (s.system.next c.config (.table .alloc)).map fun system =>
          { s with system := system, segment := segment }
      else none
  | .tryRandom random =>
      let sector := c.parameters.sector s.segment random
      let fits := c.parameters.fits s.segment sector
      (s.system.next c.config (.table (.check sector fits))).map fun system => { s with system := system }
  | .write page pages random => s.writeStep c page pages random true id
  | .writeFails page pages random words =>
      s.writeStep c page pages random false fun _ a => words (a - c.buffer)
  | .validate random passes => s.validateStep c random passes
  | .lose a w => some { s with disk := Function.update s.disk a w, lost := s.lost + 1 }
  | .other l =>
      if isOther s.system.pc l then
        (s.system.next c.config l).map fun system =>
          { s with system := system, requested := s.requests l }
      else none

def run (c : Setup) (s : Session τ) (labels : List (Session.Label τ)) : Option (Session τ) :=
  labels.foldlM (Session.next c) s

end Session

/-- The pattern is in place from each read block on. -/
def Setup.InPlaceFrom (c : Setup) (p : Pattern) : Prop :=
  ∀ j < c.writeBlockSize / c.readBlockSize,
    InPlace p (j * c.readBlockSize, c.writeBlockSize - j * c.readBlockSize)

/-- A page holds its pattern, a block without a page has a pattern that ends in the first half of the
block, and the pattern is in place in every split. -/
def Session.Label.Sound (c : Setup) : Session.Label τ → Prop
  | .write (some (addr, p)) pages _ => c.sat.PageIs pages addr p.pattern ∧ c.InPlaceFrom p
  | .write none _ random =>
      (∀ i, c.writeBlockSize / 8 ≤ i → i < c.writeBlockSize / 4 → random.pattern i = 0) ∧
        c.InPlaceFrom random
  | _ => True

/-- The states of the runs with such labels. -/
def Session.Reachable (c : Setup) (s : Session τ) : Prop :=
  ∃ disk buf, Relation.ReflTransGen (fun s s' => ∃ l : Session.Label τ, l.Sound c ∧ s.next c l = some s')
    (Session.initial τ disk buf) s

end StressAppTest.Disk
