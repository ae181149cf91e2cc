import StressAppTest.Workers.World

/-!
# The work loops (`worker.cc`)

One pass of the main loop of each worker, as a script. `Job` is what a worker carries from
one pass to the next; `Sat.body` is the pass of a job. The split loop of `InitializePages`,
which the main thread runs on the same pages, is here too.

Counters that are only reported (`pages_copied_`, `loops`) and the diagnostic records are left
out. `YieldSelf` and the pauses inside `IsReadyToRun` only delay a worker.
-/

namespace StressAppTest

open Threads Work

/-- A worker between two passes of its loop. -/
inductive Job
  /-- `FillThread` with `left` pages to go. -/
  | fill (presetOnly : Bool) (left : Nat)
  | copy (tag : Word32)
  | invert
  /-- `CheckThread` in phase `final_check`, or not. -/
  | check (finalCheck : Bool)
  /-- `FileThread` before it has opened its file, and in pass `pass`. -/
  | openFile (F : Sat.FileThread)
  | file (F : Sat.FileThread) (pass : Nat)
  /-- `NetworkThread` before it has connected, and connected. -/
  | connect (sock : Nat)
  | network (sock : Nat)
  /-- Pass `i` of the split loop of `InitializePages`. -/
  | split (i : Nat)

/-- `IsReadyToRun` / `IsReadyToRunNoPause` -/
def isReadyToRun (id : StatusId) : Work Bool := look fun w => !w.stop id

/-- `Sat::error_stop_requested` -/
def errorStopRequested : Work Bool := look fun w => w.errorStop

/-- `IsReadyToRun() && !sat_->error_stop_requested()` -/
def keepRunning (id : StatusId) : Work Bool := do
  if ← isReadyToRun id then return !(← errorStopRequested) else return false

namespace Sat

variable (sat : Sat)

/-- The immediate check of `FillThread::Work`. -/
def verifyFilledPage (presetOnly : Bool) (pe : PageEntry) : Work Nat := do
  let stop ← errorStopRequested
  sat.checkPageIf (!presetOnly && !stop && sat.shouldVerifyFilledPage pe.offset) pe

/-- `FillThread::Work` -/
def fillThreadWork (presetOnly : Bool) (left : Nat) : Work (Turn Job) := do
  let ready ← isReadyToRun .fill
  if !ready || left == 0 then return .exit true
  else
    match ← sat.getEmpty kDontCareTag with
    | none => return .exit false
    | some pe =>
      let filled ← sat.fillPageRandom presetOnly pe
      if !filled.2 then return .exit false
      else
        let _ ← sat.verifyFilledPage presetOnly filled.1
        let put ← putValid filled.1
        if !put then return .exit false
        else return .again (.fill presetOnly (left - 1))

/-- `CopyThread::Work` -/
def copyThreadWork (tag : Word32) : Work (Turn Job) := do
  if !(← keepRunning .powerSpike) then return .exit true
  else
    match ← sat.getValid tag with
    | none => return .exit false
    | some src =>
      match ← sat.getEmpty tag with
      | none =>
        let _ ← putValid src
        return .exit false
      | some dst =>
        let dst ← sat.copyPage src dst
        let _ ← sat.checkPageIf sat.copyVerifyDestination dst
        let dstReturned ← putValid dst
        let srcReturned ← putEmpty src
        if dstReturned && srcReturned then return .again (.copy tag) else return .exit false

/-- `InvertThread::Work` -/
def invertThreadWork : Work (Turn Job) := do
  if !(← keepRunning .continuous) then return .exit true
  else
    match ← sat.getValid kDontCareTag with
    | none => return .exit false
    | some src =>
      let _ ← sat.checkPageIf sat.strict src
      let src ← invertPage sat.invertPageUp src
      let src ← invertPage sat.invertPageDown src
      let src ← invertPage sat.invertPageDown src
      let src ← invertPage sat.invertPageUp src
      let _ ← sat.checkPageIf sat.strict src
      let put ← putValid src
      if put then return .again .invert else return .exit false

/-- The status a `CheckThread` ends with when it finds no page: a failure only while the run
goes on. -/
def checkThreadEmpty (finalCheck legacyFinalCheck : Bool) : Work (Turn Job) := do
  let ready ← isReadyToRun .continuous
  let unexpectedEmpty := !finalCheck && (if legacyFinalCheck then ready else true)
  return .exit (!unexpectedEmpty)

/-- `CheckThread::Work` -/
def checkThreadWork (finalCheck : Bool) : Work (Turn Job) := do
  if ← errorStopRequested then return .exit true
  else
    let legacyFinalCheck := !finalCheck && sat.legacyFinalCheckMode
    let ready ← isReadyToRun .continuous
    -- only the separate end policies look at STOP here
    if !finalCheck && !legacyFinalCheck && !ready then return .exit true
    else
      match ← sat.getValid kDontCareTag with
      | none => checkThreadEmpty finalCheck legacyFinalCheck
      | some pe =>
        let _ ← sat.checkPage pe
        let ready ← isReadyToRun .continuous
        let stop ← errorStopRequested
        let put ← putPage (finalCheck || (legacyFinalCheck && !ready && !stop)) pe
        if put then return .again (.check finalCheck) else return .exit false

/-! ## `FileThread` -/

/-- `FileThread::WritePages` from page `i` on, with `n` pages to go: the page records, or a
failure. Flushing the page cache may fail too. -/
def writePages (F : FileThread) (pass : Nat) : Nat → Nat → List PageRec → Work (Option (List PageRec))
  | 0, _, recs => act fun n w => (w, if n % 2 = 0 then some recs else none)
  | n + 1, i, recs => do
    match ← sat.getValid kDontCareTag with
    | none => return none
    | some src =>
      let _ ← sat.checkPageIf sat.strict src
      sat.tagSectors F pass i src
      let written ← sat.writePageToFile F i src
      let put ← putEmpty src
      if put && written then writePages F pass n (i + 1) (recs ++ [src.pattern]) else return none

/-- `FileThread::ReadPages` from page `i` on, with the records that are left. -/
def readPages (F : FileThread) (pass : Nat) : Nat → List PageRec → Work Bool
  | _, [] => return true
  | i, pattern :: recs => do
    match ← sat.getEmpty kDontCareTag with
    | none => return false
    | some dst =>
      match ← sat.readPageFromFile F i { dst with pattern := pattern } with
      | none =>
        let _ ← putEmpty { dst with pattern := pattern }
        return false
      | some dst =>
        sat.sectorValidate F pass i dst
        let errors ← sat.checkPageIf sat.strict dst
        let put ← putValid dst
        if !put then return false
        else
          let rest ← readPages F pass (i + 1) recs
          return errors == 0 && rest

/-- `FileThread::Work` up to its loop: the pages are mapped memory, the file may fail to open. -/
def openFileWork (F : FileThread) : Work (Turn Job) :=
  act fun n w => (w, if n % 2 = 0 then .again (.file F 0) else .exit false)

/-- `FileThread::Work`. A failure ends the loop, the status is good all the same. -/
def fileThreadWork (F : FileThread) (pass : Nat) : Work (Turn Job) := do
  if !(← keepRunning .powerSpike) then return .exit true
  else
    match ← sat.writePages F pass sat.diskPages 0 [] with
    | none => return .exit true
    | some recs =>
      let read ← sat.readPages F pass 0 recs
      if read then return .again (.file F (pass + 1)) else return .exit true

/-! ## `NetworkThread` -/

/-- `NetworkThread::Work` up to its loop. -/
def connectWork (sock : Nat) : Work (Turn Job) := do
  if ← errorStopRequested then return .exit true
  else act fun n w => (w, if n % 2 = 0 then .again (.network sock) else .exit false)

/-- The end of a failed transfer: both pages go back as they came. -/
def returnPages (src dst : PageEntry) : Work (Turn Job) := do
  let _ ← putValid src
  let _ ← putEmpty dst
  return .exit false

/-- `NetworkThread::Work` -/
def networkThreadWork (sock : Nat) : Work (Turn Job) := do
  if !(← keepRunning .continuous) then return .exit true
  else
    match ← sat.getValid kDontCareTag with
    | none => return .exit false
    | some src =>
      match ← sat.getEmpty kDontCareTag with
      | none =>
        let _ ← putValid src
        return .exit false
      | some dst =>
        let _ ← sat.checkPageIf sat.strict src
        let sent ← sendPage sock src
        if !sent then returnPages src dst
        else
          match ← sat.receivePage sock { dst with pattern := src.pattern } with
          | none => returnPages src { dst with pattern := src.pattern }
          | some dst =>
            let _ ← sat.checkPageIf sat.strict dst
            let dstReturned ← putValid dst
            let srcReturned ← putEmpty src
            if dstReturned && srcReturned then return .again (.network sock) else return .exit false

/-! ## The split loop -/

/-- The region of a page is counted, and its entry gets the address and the tag of it. -/
def tagRegion (pe : PageEntry) : Work PageEntry := act fun _ w =>
  let paddr := sat.virtualToPhysical (pe.addr.getD 0)
  let region := sat.findRegion paddr
  ({ w with region := Function.update w.region region (w.region region + 1) },
    { pe with paddr := paddr, tag := BitVec.ofNat 32 (2 ^ region) })

/-- Pass `i` of the split loop of `Sat::InitializePages`. -/
def splitWork (i : Nat) : Work (Turn Job) := do
  if sat.pages ≤ i then return .exit true
  else
    match ← sat.getValid kInvalidTag with
    | none => return .exit false
    | some pe =>
      let pe ← sat.tagRegion pe
      let _ ← putPage (i < sat.freepages) pe
      return .again (.split (i + 1))

/-- One pass of the loop of a worker. -/
def body : Job → Work (Turn Job)
  | .fill presetOnly left => sat.fillThreadWork presetOnly left
  | .copy tag => sat.copyThreadWork tag
  | .invert => sat.invertThreadWork
  | .check finalCheck => sat.checkThreadWork finalCheck
  | .openFile F => openFileWork F
  | .file F pass => sat.fileThreadWork F pass
  | .connect sock => connectWork sock
  | .network sock => sat.networkThreadWork sock
  | .split i => sat.splitWork i

end Sat

end StressAppTest
