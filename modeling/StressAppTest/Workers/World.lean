import StressAppTest.PageQueue
import StressAppTest.Library.Script
import StressAppTest.Memory.Transform

/-!
# The world of the workers

What the workers share besides the page queue: the test memory, files and sockets, the stop
flags, the error counters and the cursor of the pattern list. A worker is a script
(`Library.Script`) whose requests go to the page queue; its local steps are the page
operations of `Memory`, taken as a whole, since a page in hand is touched by nobody else.

The choice of a local step stands for what the program cannot know: random numbers,
timestamps, the CPU it runs on, the DRAM frequency, and the outcome of I/O calls.
-/

namespace StressAppTest

open Threads

/-- The `WorkerStatus` objects of the page workers: the one of a fill pass, and the two of the
run. -/
inductive StatusId
  | fill
  | powerSpike
  | continuous
  deriving DecidableEq, Repr

/-- The shared world. `errorcount_` is kept in two parts: what comparing data adds to it
(`miscompares`) and what failed I/O adds (`ioErrors`). `filled` and `checked` log the page
offsets handed to the fill functions and to `CrcCheckPage`. -/
structure World where
  mem : Mem
  file : Nat → Nat → Word64
  socket : Nat → List (Nat → Word64)
  stop : StatusId → Bool
  errorStop : Bool
  miscompares : Nat
  ioErrors : Nat
  cursor : Nat
  region : Nat → Nat
  filled : List Nat
  checked : List Nat

/-- The text of a worker. -/
abbrev Work := Script Request Response World

namespace Work

/-- One local step under a choice. -/
def act {β : Type} (f : Nat → World → World × β) : Work β :=
  .loc (fun n w => (f n w).1) fun n w => .ret (f n w).2

/-- A read of the world. -/
def look {β : Type} (f : World → β) : Work β := act fun _ w => (w, f w)

def get (kind : PageKind) (tag : Word32) : Work (Option PageEntry) :=
  .call (.get kind tag) fun
    | .entry pe => .ret pe
    | .status _ => .ret none

def put (kind : PageKind) (pe : PageEntry) : Work Bool :=
  .call (.put kind pe) fun
    | .status ok => .ret ok
    | .entry _ => .ret false

end Work

open Work

/-- `lastcpu = sched_getcpu()` and `write_dram_frequency = current_dram_frequency()`. -/
def PageEntry.stamp (pe : PageEntry) (n : Nat) : PageEntry :=
  { pe with lastcpu := BitVec.ofNat 32 n, writeDramFrequency := (n / 2 ^ 32 : Nat) - 1 }

namespace Sat

variable (sat : Sat)

/-! ## `Sat::GetValid` and its siblings -/

/-- `Sat::GetValid`. The page is mapped, so the address is not null. -/
def getValid (tag : Word32) : Work (Option PageEntry) := do
  match ← get .valid tag with
  | none => return none
  | some pe =>
    act fun ts w => (w, some { pe with
      addr := some (sat.prepareTestMem pe.offset)
      ts := ts
      lastpattern := pe.pattern })

/-- `Sat::GetEmpty` -/
def getEmpty (tag : Word32) : Work (Option PageEntry) := do
  match ← get .empty tag with
  | none => return none
  | some pe => return some { pe with addr := some (sat.prepareTestMem pe.offset) }

/-- `Sat::PutValid` -/
def putValid (pe : PageEntry) : Work Bool := put .valid { pe with addr := none }

/-- `Sat::PutEmpty` -/
def putEmpty (pe : PageEntry) : Work Bool :=
  put .empty { pe with addr := none, writeDramFrequency := -1 }

/-- The choice between the two puts. -/
def putPage (empty : Bool) (pe : PageEntry) : Work Bool := if empty then putEmpty pe else putValid pe

/-! ## Page operations as steps -/

/-- Errors found by comparing data: counted, and a reason to stop with `--stop_on_errors`. -/
def report (n : Nat) (w : World) : World :=
  { w with
    miscompares := w.miscompares + n
    errorStop := w.errorStop || (sat.stopOnError && n != 0) }

/-- `CrcCheckPage` of the page of an entry. -/
def checkPage (pe : PageEntry) : Work Nat := act fun _ w =>
  match pe.pattern with
  | none => (w, 0)
  | some p =>
    let r := sat.crcCheckPage w.mem pe.memblock p
    (sat.report r.errorcount { w with mem := r.mem, checked := pe.offset :: w.checked }, r.errors)

/-- `CrcCheckPage` if the flag says so. -/
def checkPageIf (b : Bool) (pe : PageEntry) : Work Nat :=
  if b then sat.checkPage pe else return 0

/-- `Sat::ShouldVerifyFilledPage` -/
def shouldVerifyFilledPage (pageOffset : Nat) : Bool :=
  sat.fillVerifyEvery != 0 && (pageOffset / sat.pageLength + 1) % sat.fillVerifyEvery == 0

/-- `FillThread::FillPageRandom`: the entry with its pattern, and the result. -/
def fillPageRandom (presetOnly : Bool) (pe : PageEntry) : Work (PageEntry × Bool) :=
  act fun n w =>
    if presetOnly then
      let pe := { pe with pattern := sat.patternlist.getPattern 0 }
      let filled (value : Word64) : World :=
        { w with
          mem := sat.fillPageWithConstant w.mem pe.memblock value
          filled := pe.offset :: w.filled }
      match sat.fillPreset with
      | .zero => (filled 0, pe, true)
      | .one => (filled (BitVec.allOnes 64), pe, true)
      | .none => (w, pe, false)
    else
      match sat.patternlist.getRandomPattern w.cursor (n / 2 ^ 64) with
      | none => (w, { pe with pattern := none }, false)
      | some p =>
        ({ w with
          mem := sat.fillPage w.mem pe.memblock p
          cursor :=
            if sat.patternlist.selectedPatternIds = [] then w.cursor else (w.cursor + 1) % 2 ^ 32
          filled := pe.offset :: w.filled },
          ({ pe with pattern := some p } : PageEntry).stamp n, true)

/-- The copy of `CopyThread::Work` in the mode of the run: the destination entry it leaves. -/
def copyPage (src dst : PageEntry) : Work PageEntry := act fun n w =>
  let dst' := ({ dst with pattern := src.pattern } : PageEntry).stamp n
  let copied (r : Checked) : World := sat.report r.errorcount { w with mem := r.mem }
  if sat.warm then
    match src.pattern with
    | none => (w, dst')
    | some p => (copied (sat.crcWarmCopyPage w.mem dst.memblock src.memblock p), dst')
  else if sat.strict then
    match src.pattern with
    | none => (w, dst')
    | some p => (copied (sat.crcCopyPage w.mem dst.memblock src.memblock p), dst')
  else ({ w with mem := sat.memcpyPage w.mem dst.memblock src.memblock }, dst')

/-- `InvertThread::InvertPageUp` / `InvertPageDown`. -/
def invertPage (invert : Mem → Nat → Option Mem) (pe : PageEntry) : Work PageEntry :=
  act fun n w =>
    ({ w with mem := (invert w.mem pe.memblock).getD w.mem }, pe.stamp n)

/-! ## Files and sockets -/

/-- A file worker: its number, which marks its sectors, and its file. -/
structure FileThread where
  threadNum : Nat
  file : Nat

/-- What `page_recs_` keeps of a page: the pattern it was written with. The addresses in it
are only reported. -/
abbrev PageRec := Option Pattern

/-- `FileThread::SectorTagPage` -/
def tagSectors (F : FileThread) (pass block : Nat) (src : PageEntry) : Work Unit := act fun _ w =>
  ({ w with mem := sat.sectorTagPage w.mem src.memblock F.threadNum block pass }, ())

/-- `FileThread::WritePageToFile`: choice 0 writes the whole page, choice `k + 1` writes `k`
words of it and fails. -/
def writePageToFile (F : FileThread) (block : Nat) (src : PageEntry) : Work Bool := act fun n w =>
  let choice := n % (sat.pageWords + 2)
  let words := if choice = 0 then sat.pageWords else choice - 1
  let file := writeWords (w.file F.file) (block * sat.pageWords) words fun i =>
    w.mem (src.memblock + i)
  ({ w with
    file := Function.update w.file F.file file
    ioErrors := if choice = 0 then w.ioErrors else w.ioErrors + 1 }, choice == 0)

/-- `FileThread::ReadPageFromFile`, with choices as for the write: the entry with the marks of
this write. -/
def readPageFromFile (F : FileThread) (block : Nat) (dst : PageEntry) : Work (Option PageEntry) :=
  act fun n w =>
    let choice := n % (sat.pageWords + 2)
    let words := if choice = 0 then sat.pageWords else choice - 1
    ({ w with
      mem := writeWords w.mem dst.memblock words fun i =>
        w.file F.file (block * sat.pageWords + i)
      ioErrors := if choice = 0 then w.ioErrors else w.ioErrors + 1 },
      if choice = 0 then some (dst.stamp n) else none)

/-- `FileThread::SectorValidatePage` -/
def sectorValidate (F : FileThread) (pass block : Nat) (dst : PageEntry) : Work Unit := act fun _ w =>
  match dst.pattern with
  | none => (w, ())
  | some p =>
    let s := sat.sectorValidatePage w.mem dst.memblock F.threadNum block pass p
    (sat.report s.errorcount { w with mem := s.mem }, ())

/-- `NetworkThread::SendPage`: the page goes out on the connection and will come back from its
other end. An odd choice is a failure. -/
def sendPage (sock : Nat) (src : PageEntry) : Work Bool := act fun n w =>
  let page := fun i => w.mem (src.memblock + i)
  if n % 2 = 0 then
    ({ w with socket := Function.update w.socket sock (w.socket sock ++ [page]) }, true)
  else (w, false)

/-- `NetworkThread::ReceivePage`: the next page that comes back, and the entry with the marks of
this write; choice `k + 1`, or a connection with nothing on its way, fails after `k` words. -/
def receivePage (sock : Nat) (dst : PageEntry) : Work (Option PageEntry) := act fun n w =>
  let choice := n % (sat.pageWords + 2)
  match w.socket sock with
  | [] => (w, none)
  | page :: rest =>
    if choice = 0 then
      ({ w with
        mem := writeWords w.mem dst.memblock sat.pageWords page
        socket := Function.update w.socket sock rest }, some (dst.stamp n))
    else
      ({ w with mem := writeWords w.mem dst.memblock (choice - 1) page }, none)

end Sat

end StressAppTest
