import StressAppTest.Library.Custody
import StressAppTest.PageEntry

/-!
# Pages and the exits of the work loops (`worker.cc`, `sat.cc`)

The `Work` functions of the page workers with every failure of the operations they call: a get that
finds no page, a page that cannot be mapped, a failed fill, a short read or write, a failed transfer.
The operations are questions whose answer the program cannot know; what they do to the contents of a
page is in `Workers.Loops`, and checks that do not change the course of a worker are left out.

A worker gives back every page it has taken, unless a page that it has taken cannot be mapped, the
fill of a page fails, or the private queue of a memory region has no page (`page_conservation`).
-/

namespace StressAppTest.Exits

open Custody Threads

/-- What a worker asks besides for pages. -/
inductive Question where
  | isReadyToRun
  | errorStopRequested
  /-- `PrepareTestMem` of a page that a get has taken is not null. -/
  | prepareTestMem (page : Nat)
  /-- `GetValidByOffset` and `PrepareTestMem` of a page that stays in the queue. -/
  | validByOffset (index : Nat)
  | prepareByOffset (index : Nat)
  | fillPageRandom (page : Nat)
  | posixMemalign
  | openFile
  | writePageToFile
  | flushPageCache
  | readPageFromFile
  /-- `CrcCheckPage` finds no error. -/
  | crcCheckPage
  | createSocket
  | connect
  | sendPage
  | receivePage
  /-- The private queue of a memory region. -/
  | popRandom
  | push
  deriving DecidableEq, Repr

abbrev Work := Code PageKind Nat Question

/-! ## `Sat` -/

/-- `Sat::GetValid` and `Sat::GetEmpty` -/
def getPage (kind : PageKind) : Work (Option Nat) := do
  match ← take kind with
  | none => return none
  | some page =>
    let mapped ← ask (.prepareTestMem page)
    return if mapped then some page else none

def getValid : Work (Option Nat) := getPage .valid

def getEmpty : Work (Option Nat) := getPage .empty

def putValid (page : Nat) : Work Bool := store .valid page

def putEmpty (page : Nat) : Work Bool := store .empty page

/-- `Sat::RestoreInitializationPages` -/
def restoreInitializationPages : Nat → Work Bool
  | 0 => return true
  | count + 1 => do
    match ← take .empty with
    | none => return false
    | some page =>
      let pushed ← store .valid page
      if pushed then restoreInitializationPages count else return false

/-! ## The work loops -/

/-- A worker between two passes of its loop. -/
inductive Job where
  | fill (numPagesToFill loops : Nat)
  | copy
  | invert
  | check (finalCheck legacyFinalCheck : Bool)
  | postFillCheck (coarseQueue : Bool) (pagesToCheck i : Nat)
  | openFile (pageIo : Bool) (diskPages : Nat)
  | file (pageIo : Bool) (diskPages : Nat)
  | connect
  | network
  | memoryRegion

/-- `IsReadyToRun() && !sat_->error_stop_requested()` -/
def keepRunning : Work Bool := do
  let ready ← ask .isReadyToRun
  if !ready then return false
  else
    let stop ← ask .errorStopRequested
    return !stop

/-- `FillThread::Work` -/
def fillThread (numPagesToFill loops : Nat) : Work (Turn Job) := do
  let ready ← ask .isReadyToRun
  if !(ready && decide (loops < numPagesToFill)) then return .exit true
  else
    match ← getEmpty with
    | none => return .exit false
    | some page =>
      let filled ← ask (.fillPageRandom page)
      if !filled then return .exit false
      else
        let returned ← putValid page
        if returned then return .again (.fill numPagesToFill (loops + 1)) else return .exit false

/-- `CopyThread::Work` -/
def copyThread : Work (Turn Job) := do
  let run ← keepRunning
  if !run then return .exit true
  else
    match ← getValid with
    | none => return .exit false
    | some src =>
      match ← getEmpty with
      | none =>
        let _ ← putValid src
        return .exit false
      | some dst =>
        let dstReturned ← putValid dst
        let srcReturned ← putEmpty src
        if dstReturned && srcReturned then return .again .copy else return .exit false

/-- `InvertThread::Work` -/
def invertThread : Work (Turn Job) := do
  let run ← keepRunning
  if !run then return .exit true
  else
    match ← getValid with
    | none => return .exit false
    | some src =>
      let returned ← putValid src
      if returned then return .again .invert else return .exit false

/-- `CheckThread::Work` after a get that failed. -/
def checkThreadEmpty (finalCheck legacyFinalCheck : Bool) : Work (Turn Job) := do
  if finalCheck then return .exit true
  else if legacyFinalCheck then
    let ready ← ask .isReadyToRun
    return .exit (!ready)
  else return .exit false

/-- The return of the page in `CheckThread::Work`. -/
def checkThreadPut (finalCheck legacyFinalCheck : Bool) (page : Nat) : Work Bool := do
  if finalCheck then putEmpty page
  else
    let ready ← ask .isReadyToRun
    if legacyFinalCheck && !ready then
      let stop ← ask .errorStopRequested
      if stop then putValid page else putEmpty page
    else putValid page

/-- `CheckThread::Work` -/
def checkThread (finalCheck legacyFinalCheck : Bool) : Work (Turn Job) := do
  let stop ← ask .errorStopRequested
  if stop then return .exit true
  else
    -- only the separate end policies look at STOP here
    let running ← if finalCheck || legacyFinalCheck then pure true else ask .isReadyToRun
    if !running then return .exit true
    else
      match ← getValid with
      | none => checkThreadEmpty finalCheck legacyFinalCheck
      | some page =>
        let returned ← checkThreadPut finalCheck legacyFinalCheck page
        if returned then return .again (.check finalCheck legacyFinalCheck) else return .exit false

/-- The end of `PostFillCheckThread::Work`, after `checkedPages` pages. -/
def postFillCheckEnd (coarseQueue : Bool) (checkedPages : Nat) (result : Bool) : Work (Turn Job) := do
  if coarseQueue then
    let restored ← restoreInitializationPages checkedPages
    return .exit (restored && result)
  else return .exit result

/-- `PostFillCheckThread::Work` with the OneLock queues: a page that is checked waits in the empty
queue. -/
def postFillCheckCoarse (pagesToCheck i : Nat) : Work (Turn Job) := do
  match ← getValid with
  | none => postFillCheckEnd true i false
  | some page =>
    -- `HoldInitializationPage`
    let held ← store .empty page
    if !held then
      let _ ← putValid page
      postFillCheckEnd true i false
    else
      let stop ← ask .errorStopRequested
      if stop then postFillCheckEnd true (i + 1) true
      else return .again (.postFillCheck true pagesToCheck (i + 1))

/-- `PostFillCheckThread::Work` with the FineLock queue: the pages stay in the queue. -/
def postFillCheckFine (pagesToCheck i : Nat) : Work (Turn Job) := do
  let found ← ask (.validByOffset i)
  if !found then return .exit false
  else
    let mapped ← ask (.prepareByOffset i)
    if !mapped then return .exit false
    else
      let stop ← ask .errorStopRequested
      if stop then return .exit true
      else return .again (.postFillCheck false pagesToCheck (i + 1))

/-- `PostFillCheckThread::Work` -/
def postFillCheckThread (coarseQueue : Bool) (pagesToCheck i : Nat) : Work (Turn Job) :=
  if pagesToCheck ≤ i then postFillCheckEnd coarseQueue i true
  else if coarseQueue then postFillCheckCoarse pagesToCheck i
  else postFillCheckFine pagesToCheck i

/-- The buffer of a file transfer: a page of the pool with `page_io_`, else `local_page_`. -/
inductive Buffer where
  | page (page : Nat)
  | localPage

/-- `FileThread::GetValidPage` -/
def getValidPage (pageIo : Bool) : Work (Option Buffer) := do
  match ← getValid with
  | none => return none
  | some tmp =>
    if pageIo then return some (.page tmp)
    else
      let returned ← putValid tmp
      if returned then return some .localPage else return none

/-- `FileThread::GetEmptyPage` -/
def getEmptyPage (pageIo : Bool) : Work (Option Buffer) := do
  if pageIo then
    match ← getEmpty with
    | none => return none
    | some page => return some (.page page)
  else return some .localPage

/-- `FileThread::PutEmptyPage` -/
def putEmptyPage : Buffer → Work Bool
  | .page page => putEmpty page
  | .localPage => return true

/-- `FileThread::PutValidPage` -/
def putValidPage : Buffer → Work Bool
  | .page page => putValid page
  | .localPage => return true

/-- `FileThread::WritePages` with `n` pages to go. -/
def writePages (pageIo : Bool) : Nat → Work Bool
  | 0 => ask .flushPageCache
  | n + 1 => do
    match ← getValidPage pageIo with
    | none => return false
    | some src =>
      let written ← ask .writePageToFile
      let returned ← putEmptyPage src
      if returned && written then writePages pageIo n else return false

/-- `FileThread::ReadPages` with `n` pages to go. -/
def readPages (pageIo : Bool) : Nat → Bool → Work Bool
  | 0, result => return result
  | n + 1, result => do
    match ← getEmptyPage pageIo with
    | none => return false
    | some dst =>
      let read ← ask .readPageFromFile
      if !read then
        let _ ← putEmptyPage dst
        return false
      else
        let good ← ask .crcCheckPage
        let returned ← putValidPage dst
        if returned then readPages pageIo n (result && good) else return false

/-- `FileThread::Work` up to its loop. -/
def openFileThread (pageIo : Bool) (diskPages : Nat) : Work (Turn Job) := do
  let prepared ← if pageIo then pure true else ask .posixMemalign
  if !prepared then return .exit false
  else
    let opened ← ask .openFile
    if opened then return .again (.file pageIo diskPages) else return .exit false

/-- `FileThread::Work` -/
def fileThread (pageIo : Bool) (diskPages : Nat) : Work (Turn Job) := do
  let run ← keepRunning
  if !run then return .exit true
  else
    let written ← writePages pageIo diskPages
    if !written then return .exit true
    else
      let read ← readPages pageIo diskPages true
      if read then return .again (.file pageIo diskPages) else return .exit true

/-- `NetworkThread::Work` up to its loop. -/
def connectThread : Work (Turn Job) := do
  let created ← ask .createSocket
  if !created then return .exit false
  else
    let stop ← ask .errorStopRequested
    if stop then return .exit true
    else
      let connected ← ask .connect
      if connected then return .again .network else return .exit false

/-- The end of a failed transfer in `NetworkThread::Work`. -/
def returnPages (src dst : Nat) : Work (Turn Job) := do
  let _ ← putValid src
  let _ ← putEmpty dst
  return .exit false

/-- `NetworkThread::Work` -/
def networkThread : Work (Turn Job) := do
  let run ← keepRunning
  if !run then return .exit true
  else
    match ← getValid with
    | none => return .exit false
    | some src =>
      match ← getEmpty with
      | none =>
        let _ ← putValid src
        return .exit false
      | some dst =>
        let sent ← ask .sendPage
        if !sent then returnPages src dst
        else
          let received ← ask .receivePage
          if !received then returnPages src dst
          else
            let dstReturned ← putValid dst
            let srcReturned ← putEmpty src
            if dstReturned && srcReturned then return .again .network else return .exit false

/-- `MemoryRegionThread::Work` -/
def memoryRegionThread : Work (Turn Job) := do
  let run ← keepRunning
  if !run then return .exit true
  else
    match ← getValid with
    | none => return .exit false
    | some source =>
      let popped ← ask .popRandom
      if !popped then return .exit false
      else
        let returned ← putValid source
        if !returned then return .exit false
        else
          let pushed ← ask .push
          if pushed then return .again .memoryRegion else return .exit false

/-- One pass of the loop of a worker. -/
def body : Job → Work (Turn Job)
  | .fill numPagesToFill loops => fillThread numPagesToFill loops
  | .copy => copyThread
  | .invert => invertThread
  | .check finalCheck legacyFinalCheck => checkThread finalCheck legacyFinalCheck
  | .postFillCheck coarseQueue pagesToCheck i => postFillCheckThread coarseQueue pagesToCheck i
  | .openFile pageIo diskPages => openFileThread pageIo diskPages
  | .file pageIo diskPages => fileThread pageIo diskPages
  | .connect => connectThread
  | .network => networkThread
  | .memoryRegion => memoryRegionThread

/-! ## Pages in hand -/

/-- The questions after which a worker that is told no keeps a page in hand. -/
def slip : Question → Bool
  | .prepareTestMem _ | .fillPageRandom _ | .popRandom => true
  | _ => false

section Rules

variable {γ : Type} {Q : γ → Multiset Nat → Bool → Prop} {hand : Multiset Nat}

/-- A get finds no page, or one that cannot be mapped, or one. -/
theorem holds_getPage {kind : PageKind} {f : Option Nat → Work γ}
    (hnone : Holds slip Q (f none) hand false)
    (hnull : ∀ page, Holds slip Q (f none) (page ::ₘ hand) true)
    (hsome : ∀ page, Holds slip Q (f (some page)) (page ::ₘ hand) false) :
    Holds slip Q (getPage kind >>= f) hand false :=
  ⟨hnone, fun page => ⟨hsome page, hnull page⟩⟩

theorem holds_keepRunning {f : Bool → Work γ} (hf : ∀ run, Holds slip Q (f run) hand false) :
    Holds slip Q (keepRunning >>= f) hand false := by
  refine holds_ask rfl fun ready => ?_
  cases ready with
  | false => exact hf false
  | true => exact holds_ask rfl fun stop => hf (!stop)

end Rules

/-- With nothing in hand and no slip a worker may go on or end. -/
theorem clean_zero (o : Turn Job) : Clean o (0 : Multiset Nat) false := by
  cases o with
  | again job => exact ⟨rfl, rfl⟩
  | exit status => exact ⟨fun _ => rfl, fun _ => rfl⟩

/-- With a page in hand after a slip it may end. -/
theorem clean_exit_cons (status : Bool) (page : Nat) (hand : Multiset Nat) :
    Clean (.exit status : Turn Job) (page ::ₘ hand) true :=
  ⟨fun h => absurd h Multiset.cons_ne_zero, nofun⟩

theorem holds_exit {status : Bool} : Holds slip Clean (pure (.exit status) : Work (Turn Job)) 0 false :=
  clean_zero _

theorem holds_exit_cons {status : Bool} (page : Nat) (hand : Multiset Nat) :
    Holds slip Clean (pure (.exit status) : Work (Turn Job)) (page ::ₘ hand) true :=
  clean_exit_cons ..

/-- The put of the only page in hand. -/
theorem holds_putOne {kind : PageKind} {page : Nat} {f : Bool → Work (Turn Job)}
    (hf : Holds slip Clean (f true) 0 false) :
    Holds slip Clean (store kind page >>= f) (page ::ₘ 0) false := by
  refine holds_store (Multiset.mem_cons_self ..) ?_
  rw [Multiset.erase_cons_head]
  exact hf

/-! ## The work loops give back what they take -/

theorem clean_fillThread (numPagesToFill loops : Nat) :
    Holds slip Clean (fillThread numPagesToFill loops) 0 false := by
  refine holds_ask rfl fun ready => holds_ite (fun _ => holds_exit) fun _ => ?_
  refine holds_getPage holds_exit (fun page => holds_exit_cons page 0) fun page => ?_
  exact ⟨holds_putOne (clean_zero _), holds_exit_cons page 0⟩

/-- The gets of a source and a destination, of which the second gives the source back if it fails. -/
theorem clean_getBoth {f : Nat → Nat → Work (Turn Job)}
    (hf : ∀ src dst, Holds slip Clean (f src dst) (dst ::ₘ src ::ₘ 0) false) :
    Holds slip Clean (do
      match ← getValid with
      | none => return .exit false
      | some src =>
        match ← getEmpty with
        | none =>
          let _ ← putValid src
          return .exit false
        | some dst => f src dst) 0 false := by
  refine holds_getPage holds_exit (fun page => holds_exit_cons page 0) fun src => ?_
  refine holds_getPage (holds_putOne holds_exit) (fun dst => ?_) fun dst => hf src dst
  refine holds_store (Multiset.mem_cons_of_mem (Multiset.mem_cons_self ..)) ?_
  rw [Multiset.cons_swap, Multiset.erase_cons_head]
  exact holds_exit_cons dst 0

/-- The puts of a destination and its source. -/
theorem clean_putBoth {kind kind' : PageKind} {src dst : Nat} {f : Bool → Bool → Work (Turn Job)}
    (hf : Holds slip Clean (f true true) 0 false) :
    Holds slip Clean (store kind dst >>= fun x => store kind' src >>= f x) (dst ::ₘ src ::ₘ 0) false := by
  refine holds_store (Multiset.mem_cons_self ..) ?_
  rw [Multiset.erase_cons_head]
  exact holds_putOne hf

theorem clean_copyThread : Holds slip Clean copyThread 0 false := by
  refine holds_keepRunning fun run => holds_ite (fun _ => holds_exit) fun _ => ?_
  exact clean_getBoth fun src dst => clean_putBoth (clean_zero _)

theorem clean_invertThread : Holds slip Clean invertThread 0 false := by
  refine holds_keepRunning fun run => holds_ite (fun _ => holds_exit) fun _ => ?_
  refine holds_getPage holds_exit (fun page => holds_exit_cons page 0) fun page => ?_
  exact holds_putOne (clean_zero _)

theorem clean_checkThreadEmpty (finalCheck legacyFinalCheck : Bool) (hand : Multiset Nat) (slipped : Bool)
    (hclean : ∀ status, Clean (.exit status : Turn Job) hand slipped) :
    Holds slip Clean (checkThreadEmpty finalCheck legacyFinalCheck) hand slipped := by
  refine holds_ite (fun _ => hclean _) fun _ => holds_ite (fun _ => ?_) fun _ => hclean _
  exact holds_ask rfl fun ready => hclean _

theorem clean_checkThread (finalCheck legacyFinalCheck : Bool) :
    Holds slip Clean (checkThread finalCheck legacyFinalCheck) 0 false := by
  have hpage (page : Nat) : Holds slip Clean (do
      let returned ← checkThreadPut finalCheck legacyFinalCheck page
      if returned then return .again (Job.check finalCheck legacyFinalCheck) else return .exit false)
      (page ::ₘ 0) false := by
    apply holds_bind (Q := fun returned hand slipped => returned = true ∧ hand = 0 ∧ slipped = false)
    · have hput (kind : PageKind) : Holds slip
          (fun returned hand slipped => returned = true ∧ hand = 0 ∧ slipped = false)
          (store kind page : Work Bool) (page ::ₘ 0) false := by
        refine ⟨Multiset.mem_cons_self .., rfl, ?_, rfl⟩
        rw [Multiset.erase_cons_head]
      refine holds_ite (fun _ => hput _) fun _ => holds_ask rfl fun ready => ?_
      refine holds_ite (fun _ => holds_ask rfl fun stop => ?_) fun _ => hput _
      exact holds_ite (fun _ => hput _) fun _ => hput _
    · rintro returned hand slipped ⟨rfl, rfl, rfl⟩
      exact clean_zero _
  have hrun : Holds slip Clean (do
      match ← getValid with
      | none => checkThreadEmpty finalCheck legacyFinalCheck
      | some page =>
        let returned ← checkThreadPut finalCheck legacyFinalCheck page
        if returned then return .again (Job.check finalCheck legacyFinalCheck) else return .exit false)
      0 false := by
    refine holds_getPage ?_ (fun page => ?_) hpage
    · exact clean_checkThreadEmpty _ _ _ _ fun status => clean_zero _
    · exact clean_checkThreadEmpty _ _ _ _ fun status => clean_exit_cons ..
  refine holds_ask rfl fun stop => holds_ite (fun _ => holds_exit) fun _ => ?_
  cases h : finalCheck || legacyFinalCheck with
  | true =>
      simp only [if_true]
      exact hrun
  | false =>
      refine holds_ask rfl fun ready => ?_
      exact holds_ite (fun _ => holds_exit) fun _ => hrun

/-- What waits in the empty queue comes back to the valid one; what is in hand stays there. -/
theorem holds_restoreInitializationPages (count : Nat) (hand : Multiset Nat) (slipped : Bool) :
    Holds slip (fun _ hand' slipped' => hand' = hand ∧ slipped' = slipped)
      (restoreInitializationPages count) hand slipped := by
  induction count with
  | zero => exact ⟨rfl, rfl⟩
  | succ count ih =>
      refine ⟨⟨rfl, rfl⟩, fun page => holds_store (Multiset.mem_cons_self ..) ?_⟩
      rw [Multiset.erase_cons_head]
      exact ih

theorem clean_postFillCheckEnd (coarseQueue : Bool) (checkedPages : Nat) (result : Bool)
    (hand : Multiset Nat) (slipped : Bool)
    (hclean : ∀ status, Clean (.exit status : Turn Job) hand slipped) :
    Holds slip Clean (postFillCheckEnd coarseQueue checkedPages result) hand slipped := by
  refine holds_ite (fun _ => ?_) fun _ => hclean _
  refine holds_bind (holds_restoreInitializationPages checkedPages hand slipped) ?_
  rintro restored hand' slipped' ⟨rfl, rfl⟩
  exact hclean _

theorem clean_postFillCheckCoarse (pagesToCheck i : Nat) :
    Holds slip Clean (postFillCheckCoarse pagesToCheck i) 0 false := by
  refine holds_getPage ?_ (fun page => ?_) fun page => ?_
  · exact clean_postFillCheckEnd _ _ _ _ _ fun status => clean_zero _
  · exact clean_postFillCheckEnd _ _ _ _ _ fun status => clean_exit_cons ..
  · refine holds_putOne (holds_ask rfl fun stop => ?_)
    refine holds_ite (fun _ => ?_) fun _ => clean_zero _
    exact clean_postFillCheckEnd _ _ _ _ _ fun status => clean_zero _

theorem clean_postFillCheckFine (pagesToCheck i : Nat) :
    Holds slip Clean (postFillCheckFine pagesToCheck i) 0 false := by
  refine holds_ask rfl fun found => holds_ite (fun _ => holds_exit) fun _ => ?_
  refine holds_ask rfl fun mapped => holds_ite (fun _ => holds_exit) fun _ => ?_
  exact holds_ask rfl fun stop => holds_ite (fun _ => holds_exit) fun _ => clean_zero _

theorem clean_postFillCheckThread (coarseQueue : Bool) (pagesToCheck i : Nat) :
    Holds slip Clean (postFillCheckThread coarseQueue pagesToCheck i) 0 false := by
  refine holds_ite (fun _ => ?_) fun _ => ?_
  · exact clean_postFillCheckEnd _ _ _ _ _ fun status => clean_zero _
  · refine holds_ite (fun _ => ?_) fun _ => ?_
    · exact clean_postFillCheckCoarse pagesToCheck i
    · exact clean_postFillCheckFine pagesToCheck i

/-! ## Files -/

/-- A buffer is the only thing in hand. -/
def GotBuffer (r : Option Buffer) (hand : Multiset Nat) (slipped : Bool) : Prop :=
  match r with
  | none => hand = 0 ↔ slipped = false
  | some (.page page) => hand = page ::ₘ 0 ∧ slipped = false
  | some .localPage => hand = 0 ∧ slipped = false

theorem holds_getValidPage (pageIo : Bool) : Holds slip GotBuffer (getValidPage pageIo) 0 false := by
  refine holds_getPage ?_ (fun page => ?_) fun page => ?_
  · exact ⟨fun _ => rfl, fun _ => rfl⟩
  · exact ⟨fun h => absurd h Multiset.cons_ne_zero, nofun⟩
  · refine holds_ite (fun _ => ⟨rfl, rfl⟩) fun _ => holds_store (Multiset.mem_cons_self ..) ?_
    rw [Multiset.erase_cons_head]
    exact ⟨rfl, rfl⟩

theorem holds_getEmptyPage (pageIo : Bool) : Holds slip GotBuffer (getEmptyPage pageIo) 0 false := by
  refine holds_ite (fun _ => holds_getPage ?_ (fun page => ?_) fun page => ?_) fun _ => ⟨rfl, rfl⟩
  · exact ⟨fun _ => rfl, fun _ => rfl⟩
  · exact ⟨fun h => absurd h Multiset.cons_ne_zero, nofun⟩
  · exact ⟨rfl, rfl⟩

/-- A buffer is put back. -/
theorem holds_putBuffer {γ : Type} {Q : γ → Multiset Nat → Bool → Prop} {kind : PageKind} {b : Buffer}
    {hand : Multiset Nat} {slipped : Bool} {put : Buffer → Work Bool} {f : Bool → Work γ}
    (hpage : ∀ page, put (.page page) = store kind page) (hlocal : put .localPage = pure true)
    (hgot : GotBuffer (some b) hand slipped) (hf : Holds slip Q (f true) 0 false) :
    Holds slip Q (put b >>= f) hand slipped := by
  cases b with
  | page page =>
      obtain ⟨rfl, rfl⟩ := hgot
      rw [hpage]
      refine holds_store (Multiset.mem_cons_self ..) ?_
      rw [Multiset.erase_cons_head]
      exact hf
  | localPage =>
      obtain ⟨rfl, rfl⟩ := hgot
      rw [hlocal]
      exact hf

/-- The end of a batch of pages: it has failed, or there was no slip. -/
def BatchEnds (r : Bool) (hand : Multiset Nat) (slipped : Bool) : Prop :=
  (hand = 0 ↔ slipped = false) ∧ (r = true → slipped = false)

theorem batchEnds_zero (r : Bool) : BatchEnds r 0 false := ⟨⟨fun _ => rfl, fun _ => rfl⟩, fun _ => rfl⟩

theorem holds_writePages (pageIo : Bool) (n : Nat) :
    Holds slip BatchEnds (writePages pageIo n) 0 false := by
  induction n with
  | zero => exact ⟨batchEnds_zero true, batchEnds_zero false⟩
  | succ n ih =>
      refine holds_bind (holds_getValidPage pageIo) ?_
      intro r hand slipped hgot
      cases r with
      | none => exact ⟨hgot, nofun⟩
      | some src =>
          refine holds_ask rfl fun written => ?_
          refine holds_putBuffer (fun _ => rfl) rfl hgot ?_
          exact holds_ite (fun _ => ih) fun _ => batchEnds_zero _

theorem holds_readPages (pageIo : Bool) (n : Nat) (result : Bool) :
    Holds slip BatchEnds (readPages pageIo n result) 0 false := by
  induction n generalizing result with
  | zero => exact batchEnds_zero _
  | succ n ih =>
      refine holds_bind (holds_getEmptyPage pageIo) ?_
      intro r hand slipped hgot
      cases r with
      | none => exact ⟨hgot, nofun⟩
      | some dst =>
          refine holds_ask rfl fun read => holds_ite (fun _ => ?_) fun _ => ?_
          · exact holds_putBuffer (fun _ => rfl) rfl hgot (batchEnds_zero _)
          · refine holds_ask rfl fun good => ?_
            exact holds_putBuffer (fun _ => rfl) rfl hgot (ih _)

theorem clean_openFileThread (pageIo : Bool) (diskPages : Nat) :
    Holds slip Clean (openFileThread pageIo diskPages) 0 false := by
  have hopen (prepared : Bool) : Holds slip Clean (do
      if !prepared then return .exit false
      else
        let opened ← ask .openFile
        if opened then return .again (.file pageIo diskPages) else return .exit false : Work (Turn Job))
      0 false := by
    refine holds_ite (fun _ => holds_exit) fun _ => holds_ask rfl fun opened => ?_
    exact holds_ite (fun _ => clean_zero _) fun _ => holds_exit
  cases pageIo with
  | true => exact hopen true
  | false => exact holds_ask rfl hopen

theorem clean_fileThread (pageIo : Bool) (diskPages : Nat) :
    Holds slip Clean (fileThread pageIo diskPages) 0 false := by
  refine holds_keepRunning fun run => holds_ite (fun _ => holds_exit) fun _ => ?_
  refine holds_bind (holds_writePages pageIo diskPages) ?_
  intro written hand slipped hwritten
  cases written with
  | false => exact hwritten.1
  | true =>
      obtain rfl := hwritten.2 rfl
      obtain rfl := hwritten.1.mpr rfl
      refine holds_bind (holds_readPages pageIo diskPages true) ?_
      intro read hand slipped hread
      cases read with
      | false => exact hread.1
      | true =>
          obtain rfl := hread.2 rfl
          exact ⟨hread.1.mpr rfl, rfl⟩

/-! ## Network and memory regions -/

theorem clean_connectThread : Holds slip Clean connectThread 0 false := by
  refine holds_ask rfl fun created => holds_ite (fun _ => holds_exit) fun _ => ?_
  refine holds_ask rfl fun stop => holds_ite (fun _ => holds_exit) fun _ => ?_
  exact holds_ask rfl fun connected => holds_ite (fun _ => clean_zero _) fun _ => holds_exit

theorem clean_returnPages (src dst : Nat) :
    Holds slip Clean (returnPages src dst) (dst ::ₘ src ::ₘ 0) false := by
  rw [Multiset.cons_swap]
  exact clean_putBoth holds_exit

theorem clean_networkThread : Holds slip Clean networkThread 0 false := by
  refine holds_keepRunning fun run => holds_ite (fun _ => holds_exit) fun _ => ?_
  refine clean_getBoth fun src dst => holds_ask rfl fun sent => ?_
  refine holds_ite (fun _ => clean_returnPages src dst) fun _ => holds_ask rfl fun received => ?_
  refine holds_ite (fun _ => clean_returnPages src dst) fun _ => ?_
  exact clean_putBoth (clean_zero _)

theorem clean_memoryRegionThread : Holds slip Clean memoryRegionThread 0 false := by
  refine holds_keepRunning fun run => holds_ite (fun _ => holds_exit) fun _ => ?_
  refine holds_getPage holds_exit (fun page => holds_exit_cons page 0) fun page => ?_
  refine ⟨holds_putOne (holds_ask rfl fun pushed => ?_), holds_exit_cons page 0⟩
  exact holds_ite (fun _ => clean_zero _) fun _ => holds_exit

theorem clean_body (job : Job) : Holds slip Clean (body job) 0 false := by
  cases job with
  | fill numPagesToFill loops => exact clean_fillThread numPagesToFill loops
  | copy => exact clean_copyThread
  | invert => exact clean_invertThread
  | check finalCheck legacyFinalCheck => exact clean_checkThread finalCheck legacyFinalCheck
  | postFillCheck coarseQueue pagesToCheck i => exact clean_postFillCheckThread coarseQueue pagesToCheck i
  | openFile pageIo diskPages => exact clean_openFileThread pageIo diskPages
  | file pageIo diskPages => exact clean_fileThread pageIo diskPages
  | connect => exact clean_connectThread
  | network => exact clean_networkThread
  | memoryRegion => exact clean_memoryRegionThread

/-- A get that fails has put its page back if and only if it found none. -/
theorem putBack_getPage {kind : PageKind} {get : List (Event PageKind Nat Question)}
    (hexec : Exec (getPage kind) get none) :
    PutBack get ↔ ∀ page, Event.ask (.prepareTestMem page) false ∉ get := by
  cases hexec with
  | @take _ _ r trace _ h =>
      cases r with
      | none =>
          cases h
          exact ⟨fun _ page => by simp, fun _ => rfl⟩
      | some page =>
          cases h with
          | @ask _ _ mapped trace _ h =>
              cases mapped with
              | true => cases h
              | false =>
                  cases h
                  refine ⟨fun hput => ?_, fun hnone => ?_⟩
                  · exact absurd (Option.some.inj hput) Multiset.cons_ne_zero
                  · exact absurd (by simp) (hnone page)

/-- Whatever fails and when: a worker has put back every page that it has taken if and only if no
page that it took could not be mapped, no fill of a page failed and no private queue of a memory
region was without a page; and then, and only then, the pages in the queue are those of before. A get
that fails has taken no page if and only if it was not the mapping that failed. -/
theorem page_conservation {job : Job} {trace : List (Event PageKind Nat Question)} {status : Bool}
    (hruns : Runs body job trace status) (hputs : PutsSucceed trace) :
    (PutBack trace ↔ ∀ q, slip q = true → Event.ask q false ∉ trace) ∧
    (∀ pages pages', storeFrom pages trace = some pages' → (pages' = pages ↔ PutBack trace)) ∧
    ∀ (kind : PageKind) (get : List (Event PageKind Nat Question)),
      Exec (getPage kind) get none →
        (PutBack get ↔ ∀ page, Event.ask (.prepareTestMem page) false ∉ get) := by
  obtain ⟨hback, hpages⟩ := holds_runs clean_body hruns hputs
  exact ⟨hback, hpages, fun kind get hexec => putBack_getPage hexec⟩

/-- A copy worker that finds no destination puts its source back. -/
theorem page_conservation_copy : ∃ trace, Runs body .copy trace false ∧ PutsSucceed trace ∧
    PutBack trace := by
  have hruns : Runs body .copy [.ask .isReadyToRun true, .ask .errorStopRequested false,
      .take .valid (some 3), .ask (.prepareTestMem 3) true, .take .empty none, .store .valid 3 true]
      false := .exit (.ask (.ask (.take (.ask (.take (.store .ret))))))
  have hputs : PutsSucceed [.ask .isReadyToRun true, .ask .errorStopRequested false,
      .take .valid (some 3), .ask (.prepareTestMem 3) true, .take .empty none,
      (.store .valid 3 true : Event PageKind Nat Question)] := by simp [PutsSucceed]
  have hiff := (page_conservation hruns hputs).1
  refine ⟨_, hruns, hputs, hiff.mpr ?_⟩
  intro q hq hmem
  have hstop : q = .errorStopRequested := by simpa using hmem
  rw [hstop] at hq
  exact absurd hq nofun

/-- A page is taken and cannot be mapped, a fill fails with a page in hand, and a memory region has
no page for the one that was taken. -/
theorem page_lost :
    (∃ trace, Exec (getPage .valid) trace none ∧ PutsSucceed trace ∧ ¬ PutBack trace) ∧
    (∃ trace status, Runs body (.fill 1 0) trace status ∧ PutsSucceed trace ∧ ¬ PutBack trace) ∧
    ∃ trace status, Runs body .memoryRegion trace status ∧ PutsSucceed trace ∧ ¬ PutBack trace := by
  have hlost {trace : List (Event PageKind Nat Question)} {page : Nat}
      (h : handFrom 0 trace = some (page ::ₘ 0)) : ¬ PutBack trace := by
    intro hput
    rw [PutBack, h, Option.some.injEq] at hput
    exact absurd hput Multiset.cons_ne_zero
  refine ⟨⟨[.take .valid (some 3), .ask (.prepareTestMem 3) false], ?_, ?_, hlost rfl⟩,
    ⟨[.ask .isReadyToRun true, .take .empty (some 3), .ask (.prepareTestMem 3) true,
      .ask (.fillPageRandom 3) false], false, ?_, ?_, hlost rfl⟩,
    ⟨[.ask .isReadyToRun true, .ask .errorStopRequested false, .take .valid (some 3),
      .ask (.prepareTestMem 3) true, .ask .popRandom false], false, ?_, ?_, hlost rfl⟩⟩
  · exact .take (.ask .ret)
  · simp [PutsSucceed]
  · exact .exit (.ask (.take (.ask (.ask .ret))))
  · simp [PutsSucceed]
  · exact .exit (.ask (.ask (.take (.ask (.ask .ret)))))
  · simp [PutsSucceed]

end StressAppTest.Exits
