import StressAppTest.FineLock.Search
import StressAppTest.OneLock.Refinement
import StressAppTest.Workers.Program

/-!
# The post-fill check (`PostFillCheckThread::Work`, `worker.cc`)

After the fill passes one worker checks every page, while nothing else touches the queues. With the
FineLock queue it looks at the entries in place, each for the time that its lock is held. With the
OneLock queues it takes the entries out of `valid_` and parks them, patterns and all, in `empty_`;
after the loop, however it ended, it moves as many entries back as it has parked.

* `CoarseInv.step`, `coarseLoop_inv`: parked and waiting pages together are the pages of the start.
* `restore_spec`: the way back, in any order.
* `getValidByOffset_eq`: the queue after a look at an entry is the queue before it.
-/

namespace StressAppTest

open OneLock FineLock

/-! ## What the worker is told -/

/-- What the worker cannot know: random numbers and timestamps, and whether somebody else has asked
for an error stop when page `i` has been checked. -/
structure CheckChoices where
  random : Nat → Nat
  timestamp : Nat → Nat
  stopped : Nat → Bool

/-- The queue, the shared world, `checked_pages` and `result`. -/
structure CheckOutcome (σ : Type) where
  queue : σ
  world : World
  checkedPages : Nat
  result : Bool

namespace Sat

variable (sat : Sat)

/-- The entry that `GetValid` hands out, mapped and tagged. -/
def mapped (ts : Nat) (pe : PageEntry) : PageEntry :=
  { pe with
    addr := some (sat.prepareTestMem pe.offset)
    ts := ts
    lastpattern := pe.pattern }

/-- `CrcCheckPage` of a page, and the stop requests that are there after it. -/
def checkWorld (pe : PageEntry) (stopped : Bool) (w : World) : World :=
  match pe.pattern with
  | none => w
  | some p =>
    let r := sat.crcCheckPage w.mem pe.memblock p
    let w' := sat.report r.errorcount { w with mem := r.mem, checked := pe.offset :: w.checked }
    { w' with errorStop := w'.errorStop || stopped }

/-! ## The OneLock queues -/

/-- `Sat::GetValid` -/
def getValidCoarse (random ts : Nat) (queue : PageKind → PageEntryQueue) :
    (PageKind → PageEntryQueue) × Option PageEntry :=
  let r := (queue .valid).popRandom random
  (Function.update queue .valid r.1, r.2.map (sat.mapped ts))

/-- `Push` of an entry that has been unmapped: `Sat::HoldInitializationPage` on `empty_`,
`Sat::PutValid` on `valid_`. -/
def pushUnmapped (kind : PageKind) (pe : PageEntry) (queue : PageKind → PageEntryQueue) :
    (PageKind → PageEntryQueue) × Bool :=
  let r := (queue kind).push { pe with addr := none }
  (Function.update queue kind r.1, r.2)

def holdInitializationPage : PageEntry → (PageKind → PageEntryQueue) →
    (PageKind → PageEntryQueue) × Bool := pushUnmapped .empty

def putValidCoarse : PageEntry → (PageKind → PageEntryQueue) → (PageKind → PageEntryQueue) × Bool :=
  pushUnmapped .valid

/-- `Sat::RestoreInitializationPages`, with `count` entries to go. -/
def restoreInitializationPages (random : Nat → Nat) :
    Nat → (PageKind → PageEntryQueue) → (PageKind → PageEntryQueue) × Bool
  | 0, queue => (queue, true)
  | count + 1, queue =>
    let popped := (queue .empty).popRandom (random count)
    let queue := Function.update queue .empty popped.1
    match popped.2 with
    | none => (queue, false)
    | some pe =>
      let pushed := (queue .valid).push pe
      let queue := Function.update queue .valid pushed.1
      if pushed.2 then restoreInitializationPages random count queue else (queue, false)

/-- The loop of `PostFillCheckThread::Work` from page `i` on, with `n` pages to go. -/
def coarseLoop (o : CheckChoices) : Nat → Nat → (PageKind → PageEntryQueue) → World →
    CheckOutcome (PageKind → PageEntryQueue)
  | 0, i, queue, w => ⟨queue, w, i, true⟩
  | n + 1, i, queue, w =>
    match sat.getValidCoarse (o.random i) (o.timestamp i) queue with
    | (queue, none) => ⟨queue, w, i, false⟩
    | (queue, some pe) =>
      let w := sat.checkWorld pe (o.stopped i) w
      match holdInitializationPage pe queue with
      | (queue, false) => ⟨(putValidCoarse pe queue).1, w, i, false⟩
      | (queue, true) =>
        if w.errorStop then ⟨queue, w, i + 1, true⟩ else coarseLoop o n (i + 1) queue w

/-- `PostFillCheckThread::Work` with the OneLock queues. The random numbers of the way back are
others than those of the loop. -/
def postFillCheckCoarse (o : CheckChoices) (pagesToCheck : Nat) (queue : PageKind → PageEntryQueue)
    (w : World) : CheckOutcome (PageKind → PageEntryQueue) :=
  let r := sat.coarseLoop o pagesToCheck 0 queue w
  let restored := restoreInitializationPages (fun k => o.random (pagesToCheck + k)) r.checkedPages r.queue
  { r with queue := restored.1, result := restored.2 && r.result }

end Sat

/-! ## The FineLock queue -/

/-- The arrays of the queue with the state of its random generators. -/
structure FineQueue extends Pages where
  randSeed : Fin 4 → Word64

/-- A lock is taken or given back. -/
def FineQueue.setLock (s : FineQueue) (i : Nat) (b : Bool) : FineQueue :=
  { s with toPages := s.toPages.setLock i b }

/-- `FineLockPEQueue::GetValidByOffset`; `none` waits for a lock that nobody gives back. -/
def FineLock.FineLockPEQueue.getValidByOffset (Q : FineLockPEQueue) (offset : Nat) (s : FineQueue) :
    Option (FineQueue × Option PageEntry) :=
  if Q.pageSize = 0 ∨ offset % Q.pageSize ≠ 0 then some (s, none)
  else
    let index := offset / Q.pageSize
    if ¬ index < Q.qSize then some (s, none)
    else if s.pagelocks index then none
    else
      let s := s.setLock index true
      let result := PageKind.holds .valid (s.pages index) && (s.pages index).offset == offset
      some (s.setLock index false, if result then some (s.pages index) else none)

namespace Sat

variable (sat : Sat)

/-- `Sat::GetValidByOffsetForInitialization` -/
def getValidByOffsetForInitialization (Q : FineLockPEQueue) (ts offset : Nat) (s : FineQueue) :
    Option (FineQueue × Option PageEntry) :=
  (Q.getValidByOffset offset s).map fun r => (r.1, r.2.map (sat.mapped ts))

/-- The loop with the FineLock queue. `ReleaseInitializationPage` unmaps the copy of the entry. -/
def fineLoop (Q : FineLockPEQueue) (o : CheckChoices) : Nat → Nat → FineQueue → World →
    Option (CheckOutcome FineQueue)
  | 0, i, s, w => some ⟨s, w, i, true⟩
  | n + 1, i, s, w =>
    match sat.getValidByOffsetForInitialization Q (o.timestamp i) (i * sat.pageLength) s with
    | none => none
    | some (s, none) => some ⟨s, w, i, false⟩
    | some (s, some pe) =>
      let w := sat.checkWorld pe (o.stopped i) w
      if w.errorStop then some ⟨s, w, i + 1, true⟩ else fineLoop Q o n (i + 1) s w

/-- `PostFillCheckThread::Work` with the FineLock queue. -/
def postFillCheckFine (Q : FineLockPEQueue) (o : CheckChoices) (pagesToCheck : Nat) (s : FineQueue)
    (w : World) : Option (CheckOutcome FineQueue) := sat.fineLoop Q o pagesToCheck 0 s w

end Sat

/-! ## Parked and waiting pages -/

/-- What the check may not change: everything but the address, the timestamp and the last pattern. -/
def PageEntry.kept (pe : PageEntry) : PageEntry := { pe with addr := none, ts := 0, lastpattern := none }

theorem kept_mapped (sat : Sat) (ts : Nat) (pe : PageEntry) :
    ({ sat.mapped ts pe with addr := none } : PageEntry).kept = pe.kept := rfl

/-- With `i` pages checked: the pages `l` of the start are waiting or parked, and those that are
parked have been checked. -/
structure CoarseInv (l : List PageEntry) (before : List Nat) (i : Nat)
    (queue : PageKind → PageEntryQueue) (w : World) : Prop where
  qSize : ∀ kind, (queue kind).qSize = l.length + 1
  pages : ((OneLock.entries queue).map PageEntry.kept).Perm (l.map PageEntry.kept)
  held : (queue .empty).toList.length = i
  checked : w.checked.Perm ((queue .empty).toList.map PageEntry.offset ++ before)

section Coarse

variable {sat : Sat} {l : List PageEntry} {before : List Nat} {i : Nat}
  {queue : PageKind → PageEntryQueue} {w : World}

theorem CoarseInv.length (h : CoarseInv l before i queue w) :
    (queue .valid).toList.length + i = l.length := by
  have hlen := h.pages.length_eq
  rw [List.length_map, List.length_map, OneLock.entries, List.length_append, h.held] at hlen
  exact hlen

theorem checked_checkWorld (sat : Sat) (pe : PageEntry) (hpe : pe.pattern.isSome) (stopped : Bool) (w : World) :
    (sat.checkWorld pe stopped w).checked = pe.offset :: w.checked := by
  obtain ⟨p, hp⟩ := Option.isSome_iff_exists.mp hpe
  rw [Sat.checkWorld, hp]
  rfl

/-- The entries of the queues name a pattern if those of the start do. -/
theorem isSome_of_kept {l' : List PageEntry} (hperm : (l'.map PageEntry.kept).Perm (l.map PageEntry.kept))
    (hl : ∀ pe ∈ l, pe.pattern.isSome) {pe : PageEntry} (hpe : pe ∈ l') : pe.pattern.isSome := by
  have hmem := hperm.mem_iff.mp (List.mem_map_of_mem hpe)
  obtain ⟨pe', hpe', heq⟩ := List.mem_map.mp hmem
  have hpattern : pe'.kept.pattern = pe.kept.pattern := by rw [heq]
  change pe.kept.pattern.isSome
  rw [← hpattern]
  exact hl pe' hpe'

/-- **One page.** The worker gets an entry, checks the page and parks the entry. -/
theorem CoarseInv.step (sat : Sat) (h : CoarseInv l before i queue w) (hl : ∀ pe ∈ l, pe.pattern.isSome)
    (hi : i < l.length) (random ts : Nat) (stopped : Bool) :
    ∃ queue' queue'' pe, sat.getValidCoarse random ts queue = (queue', some pe) ∧
      Sat.holdInitializationPage pe queue' = (queue'', true) ∧
      CoarseInv l before (i + 1) queue'' (sat.checkWorld pe stopped w) := by
  have hlen := h.length
  rcases OneLock.popRandom_cases (queue .valid) random with ⟨-, hnil⟩ | ⟨pe, hpe, hsize, hperm⟩
  · rw [hnil, List.length_nil] at hlen
    omega
  · let popped := ((queue .valid).popRandom random).1
    let queue' := Function.update queue .valid popped
    have hempty : queue' .empty = queue .empty := Function.update_of_ne (by decide) _ _
    have hroom : (queue' .empty).count + 1 < (queue' .empty).qSize := by
      rw [hempty, h.qSize, ← PageEntryQueue.length_toList, h.held]
      omega
    let parked : PageEntry := { sat.mapped ts pe with addr := none }
    obtain ⟨hok, hqsize, hlist⟩ := PageEntryQueue.push_spec parked hroom
    rw [hempty] at hok hqsize hlist
    have hsome : pe.pattern.isSome := by
      apply isSome_of_kept h.pages hl
      exact OneLock.mem_entries.mpr ⟨.valid, hperm.mem_iff.mp List.mem_cons_self⟩
    refine ⟨queue', Function.update queue' .empty ((queue .empty).push parked).1, sat.mapped ts pe,
      ?_, ?_, ?_⟩
    · rw [Sat.getValidCoarse, hpe]
      rfl
    · rw [Sat.holdInitializationPage, Sat.pushUnmapped, hempty]
      exact Prod.ext rfl hok
    · have hvalid : Function.update queue' .empty ((queue .empty).push parked).1 .valid = popped := by
        rw [Function.update_of_ne (by decide)]
        exact Function.update_self _ _ _
      constructor
      · intro kind
        cases kind with
        | valid => rw [hvalid, hsize, h.qSize]
        | empty => rw [Function.update_self, hqsize, h.qSize]
      · apply List.Perm.trans _ h.pages
        rw [OneLock.entries, OneLock.entries, hvalid, Function.update_self, hlist, List.map_append,
          List.map_append, List.map_append, List.map_singleton, kept_mapped, ← List.append_assoc]
        apply (List.perm_append_singleton _ _).trans
        rw [← List.cons_append, ← List.map_cons]
        exact (hperm.map _).append_right _
      · rw [Function.update_self, hlist, List.length_append, h.held]
        rfl
      · rw [Function.update_self, hlist, checked_checkWorld sat (sat.mapped ts pe) hsome, List.map_append, List.map_singleton,
          List.append_assoc, List.singleton_append]
        exact (h.checked.cons _).trans List.perm_middle.symm

/-- **The loop.** Nothing fails, and without a stop request all pages are checked. -/
theorem coarseLoop_inv (sat : Sat) (hl : ∀ pe ∈ l, pe.pattern.isSome) (o : CheckChoices) (n : Nat)
    (h : CoarseInv l before i queue w) (hn : i + n = l.length) :
    let r := sat.coarseLoop o n i queue w
    CoarseInv l before r.checkedPages r.queue r.world ∧ r.result = true ∧
      (r.world.errorStop = false → r.checkedPages = l.length) := by
  induction n generalizing i queue w with
  | zero => exact ⟨h, rfl, fun _ => hn⟩
  | succ n ih =>
      obtain ⟨queue', queue'', pe, hget, hhold, hnext⟩ :=
        h.step sat hl (by omega) (o.random i) (o.timestamp i) (o.stopped i)
      intro r
      have hr : r = if (sat.checkWorld pe (o.stopped i) w).errorStop = true then
          ⟨queue'', sat.checkWorld pe (o.stopped i) w, i + 1, true⟩
          else sat.coarseLoop o n (i + 1) queue'' (sat.checkWorld pe (o.stopped i) w) := by
        change sat.coarseLoop o (n + 1) i queue w = _
        rw [Sat.coarseLoop, hget]
        dsimp only
        rw [hhold]
      by_cases hstop : (sat.checkWorld pe (o.stopped i) w).errorStop = true
      · rw [if_pos hstop] at hr
        rw [hr]
        refine ⟨hnext, rfl, ?_⟩
        intro hno
        exact absurd (hno.symm.trans hstop) Bool.false_ne_true
      · rw [if_neg hstop] at hr
        rw [hr]
        exact ih hnext (by omega)

/-- The pages `l` of the start are waiting or parked, with `count` of them parked. -/
structure Parked (l : List PageEntry) (count : Nat) (queue : PageKind → PageEntryQueue) : Prop where
  qSize : ∀ kind, (queue kind).qSize = l.length + 1
  pages : ((OneLock.entries queue).map PageEntry.kept).Perm (l.map PageEntry.kept)
  held : (queue .empty).toList.length = count

/-- One entry on its way back. -/
theorem Parked.step {count : Nat} (h : Parked l (count + 1) queue) (random : Nat) :
    ∃ pe, ((queue .empty).popRandom random).2 = some pe ∧
      ((queue .valid).push pe).2 = true ∧
      Parked l count (Function.update (Function.update queue .empty ((queue .empty).popRandom random).1)
        .valid ((queue .valid).push pe).1) := by
  have hlen := h.pages.length_eq
  rw [List.length_map, List.length_map, OneLock.entries, List.length_append, h.held] at hlen
  rcases OneLock.popRandom_cases (queue .empty) random with ⟨-, hnil⟩ | ⟨pe, hpe, hsize, hperm⟩
  · have hheld := h.held
    rw [hnil] at hheld
    cases hheld
  · have hroom : (queue .valid).count + 1 < (queue .valid).qSize := by
      rw [h.qSize, ← PageEntryQueue.length_toList]
      omega
    obtain ⟨hok, hqsize, hlist⟩ := PageEntryQueue.push_spec pe hroom
    refine ⟨pe, hpe, hok, ?_⟩
    let popped := ((queue .empty).popRandom random).1
    let queue' := Function.update (Function.update queue .empty popped) .valid ((queue .valid).push pe).1
    have hvalid : queue' .valid = ((queue .valid).push pe).1 := Function.update_self _ _ _
    have hempty : queue' .empty = popped := by
      change Function.update (Function.update queue .empty popped) .valid _ .empty = popped
      rw [Function.update_of_ne (by decide), Function.update_self]
    constructor
    · intro kind
      cases kind with
      | valid => exact (congrArg PageEntryQueue.qSize hvalid).trans (hqsize.trans (h.qSize .valid))
      | empty => exact (congrArg PageEntryQueue.qSize hempty).trans (hsize.trans (h.qSize .empty))
    · change ((OneLock.entries queue').map PageEntry.kept).Perm (l.map PageEntry.kept)
      apply List.Perm.trans _ h.pages
      apply List.Perm.map
      rw [OneLock.entries, OneLock.entries, hvalid, hempty, hlist, List.append_assoc,
        List.singleton_append]
      exact hperm.append_left _
    · change (queue' .empty).toList.length = count
      rw [hempty]
      have := hperm.length_eq
      rw [h.held, List.length_cons] at this
      exact Nat.succ.inj this

/-- **The way back.** All parked entries are moved, whatever order they come out in. -/
theorem restore_spec (random : Nat → Nat) {count : Nat} (h : Parked l count queue) :
    (Sat.restoreInitializationPages random count queue).2 = true ∧
      Parked l 0 (Sat.restoreInitializationPages random count queue).1 := by
  induction count generalizing queue with
  | zero => exact ⟨rfl, h⟩
  | succ count ih =>
      obtain ⟨pe, hpe, hok, hnext⟩ := h.step (random count)
      have hother : Function.update queue .empty ((queue .empty).popRandom (random count)).1 .valid =
          queue .valid := Function.update_of_ne (by decide) _ _
      rw [Sat.restoreInitializationPages]
      dsimp only
      rw [hpe]
      dsimp only
      rw [hother, if_pos hok]
      exact ih hnext

end Coarse

/-! ## The entries in place -/

section Fine

variable {sat : Sat} {Q : FineLockPEQueue} {s : FineQueue}

/-- A lock that is taken and given back. -/
theorem FineQueue.setLock_setLock {i : Nat} (h : s.pagelocks i = false) :
    (s.setLock i true).setLock i false = s := by
  have hlocks : Function.update (Function.update s.pagelocks i true) i false = s.pagelocks := by
    rw [Function.update_idem, ← h, Function.update_eq_self]
  change ({ s with pagelocks := Function.update (Function.update s.pagelocks i true) i false } :
    FineQueue) = s
  rw [hlocks]

/-- **A look at an entry.** The queue is as it was, lock and all. -/
theorem getValidByOffset_eq {i : Nat} (hpos : 0 < Q.pageSize) (hi : i < Q.qSize)
    (hfree : s.pagelocks i = false) (hvalid : (s.pages i).pattern.isSome)
    (hoffset : (s.pages i).offset = i * Q.pageSize) :
    Q.getValidByOffset (i * Q.pageSize) s = some (s, some (s.pages i)) := by
  have hdiv : i * Q.pageSize / Q.pageSize = i := Nat.mul_div_cancel i hpos
  unfold FineLockPEQueue.getValidByOffset
  rw [if_neg (by rw [Nat.mul_mod_left]; omega)]
  dsimp only
  rw [hdiv, if_neg (not_not.mpr hi), if_neg (by rw [hfree]; decide), FineQueue.setLock_setLock hfree]
  have hentry : (s.setLock i true).pages i = s.pages i := rfl
  rw [hentry, hoffset, PageKind.holds, hvalid, beq_self_eq_true, Bool.and_self, if_pos rfl]

/-- All pages are valid, and no lock is held. -/
structure AllValid (Q : FineLockPEQueue) (s : FineQueue) : Prop where
  free : ∀ i < Q.qSize, s.pagelocks i = false
  valid : ∀ i < Q.qSize, (s.pages i).pattern.isSome
  offset : ∀ i < Q.qSize, (s.pages i).offset = i * Q.pageSize

/-- **The loop.** The queue stays as it is, and the offsets of the checked pages follow each other. -/
theorem fineLoop_spec (hpos : 0 < Q.pageSize) (hsize : Q.pageSize = sat.pageLength)
    (h : AllValid Q s) (o : CheckChoices) (n i : Nat) (w : World) (hn : i + n = Q.qSize) :
    ∃ r, sat.fineLoop Q o n i s w = some r ∧ r.queue = s ∧ r.result = true ∧
      r.world.checked =
        ((List.range' i (r.checkedPages - i)).map (· * Q.pageSize)).reverse ++ w.checked ∧
      i ≤ r.checkedPages ∧ (r.world.errorStop = false → r.checkedPages = Q.qSize) := by
  induction n generalizing i w with
  | zero => exact ⟨⟨s, w, i, true⟩, rfl, rfl, rfl, by simp, Nat.le_refl i, fun _ => hn⟩
  | succ n ih =>
      have hlook := getValidByOffset_eq hpos (by omega) (h.free i (by omega)) (h.valid i (by omega))
        (h.offset i (by omega))
      have hget : sat.getValidByOffsetForInitialization Q (o.timestamp i) (i * sat.pageLength) s =
          some (s, some (sat.mapped (o.timestamp i) (s.pages i))) := by
        rw [Sat.getValidByOffsetForInitialization, ← hsize, hlook]
        rfl
      rw [Sat.fineLoop, hget]
      dsimp only
      let w' := sat.checkWorld (sat.mapped (o.timestamp i) (s.pages i)) (o.stopped i) w
      have hchecked : w'.checked = i * Q.pageSize :: w.checked := by
        have hlog := checked_checkWorld sat (sat.mapped (o.timestamp i) (s.pages i))
          (h.valid i (by omega)) (o.stopped i) w
        rw [hlog]
        exact congrArg (· :: w.checked) (h.offset i (by omega))
      by_cases hstop : w'.errorStop = true
      · rw [if_pos hstop]
        refine ⟨_, rfl, rfl, rfl, ?_, Nat.le_succ i, ?_⟩
        · change w'.checked = _
          rw [hchecked, Nat.add_sub_cancel_left]
          rfl
        · intro hno
          exact absurd (hno.symm.trans hstop) Bool.false_ne_true
      · rw [if_neg hstop]
        obtain ⟨r, hr, hqueue, hresult, hlog, hle, hall⟩ := ih (i + 1) w' (by omega)
        refine ⟨r, hr, hqueue, hresult, ?_, by omega, hall⟩
        have hlen : r.checkedPages - i = r.checkedPages - (i + 1) + 1 := by omega
        rw [hlog, hchecked, hlen, List.range'_succ, List.map_cons, List.reverse_cons, List.append_assoc]
        rfl

end Fine

/-- The arguments of the queues' constructors, and all pages in `valid_`. -/
structure AllInValid (l : List PageEntry) (queue : PageKind → PageEntryQueue) : Prop where
  qSize : ∀ kind, (queue kind).qSize = l.length + 1
  valid : (queue .valid).toList = l
  empty : (queue .empty).toList = []
  patterns : ∀ pe ∈ l, pe.pattern.isSome

/-- `PostFillCheckThread::Work` with the OneLock queues. -/
theorem postFillCheckCoarse_spec (sat : Sat) (o : CheckChoices) (w : World) {l : List PageEntry}
    {queue : PageKind → PageEntryQueue} (h : AllInValid l queue) :
    let r := sat.postFillCheckCoarse o l.length queue w
    r.result = true ∧ (r.queue .empty).toList = [] ∧
      ((r.queue .valid).toList.map PageEntry.kept).Perm (l.map PageEntry.kept) ∧
      (r.world.errorStop = false →
        r.checkedPages = l.length ∧ r.world.checked.Perm (l.map PageEntry.offset ++ w.checked)) := by
  have hstart : CoarseInv l w.checked 0 queue w := by
    constructor
    · exact h.qSize
    · rw [OneLock.entries, h.valid, h.empty, List.append_nil]
    · rw [h.empty]
      rfl
    · rw [h.empty]
      exact List.Perm.refl _
  obtain ⟨hinv, hresult, hall⟩ := coarseLoop_inv sat h.patterns o l.length hstart (Nat.zero_add _)
  obtain ⟨hok, hback⟩ := restore_spec (fun k => o.random (l.length + k))
    ⟨hinv.qSize, hinv.pages, hinv.held⟩
  have hempty := List.length_eq_zero_iff.mp hback.held
  refine ⟨?_, hempty, ?_, ?_⟩
  · change (_ && _) = true
    rw [hok, hresult]
    rfl
  · have hpages := hback.pages
    rw [OneLock.entries, hempty, List.append_nil] at hpages
    exact hpages
  · intro hno
    have hchecked := hall hno
    refine ⟨hchecked, hinv.checked.trans (List.Perm.append_right _ ?_)⟩
    have hvalid : ((sat.coarseLoop o l.length 0 queue w).queue .valid).toList = [] := by
      have hlen := hinv.length
      rw [hchecked] at hlen
      exact List.length_eq_zero_iff.mp (by omega)
    have hpages := hinv.pages.map PageEntry.offset
    rw [OneLock.entries, hvalid, List.nil_append, List.map_map, List.map_map] at hpages
    exact hpages

/-- **The post-fill check.** With both queues and under all random numbers, whether or not an error
stop ends the loop: the status is true, and the pages in the queue are those of before, valid and with
all their fields but the address, the timestamp and the last pattern. The FineLock queue is as it was
with its locks and its random generators. Without a stop every page has been checked exactly once. -/
theorem post_fill_check (sat : Sat) (o : CheckChoices) (w : World) :
    (∀ l queue, AllInValid l queue →
      let r := sat.postFillCheckCoarse o l.length queue w
      r.result = true ∧ (r.queue .empty).toList = [] ∧
        ((r.queue .valid).toList.map PageEntry.kept).Perm (l.map PageEntry.kept) ∧
        (r.world.errorStop = false →
          r.checkedPages = l.length ∧ r.world.checked.Perm (l.map PageEntry.offset ++ w.checked))) ∧
    ∀ (Q : FineLockPEQueue) (s : FineQueue), Q.pageSize = sat.pageLength → AllValid Q s →
      ∃ r, sat.postFillCheckFine Q o Q.qSize s w = some r ∧ r.result = true ∧ r.queue = s ∧
        (r.world.errorStop = false → r.checkedPages = Q.qSize ∧
          r.world.checked = ((List.range Q.qSize).map (· * Q.pageSize)).reverse ++ w.checked) := by
  constructor
  · intro l queue h
    exact postFillCheckCoarse_spec sat o w h
  · intro Q s hsize h
    have hpos : 0 < Q.pageSize := hsize ▸ sat.pageLength_pos
    obtain ⟨r, hr, hqueue, hresult, hlog, -, hall⟩ :=
      fineLoop_spec hpos hsize h o Q.qSize 0 w (Nat.zero_add _)
    refine ⟨r, hr, hresult, hqueue, ?_⟩
    intro hno
    have hchecked := hall hno
    refine ⟨hchecked, ?_⟩
    rw [hlog, hchecked, Nat.sub_zero, List.range_eq_range']

/-- One page in `valid_`. -/
def onePage : PageKind → PageEntryQueue
  | .valid => ((PageEntryQueue.construct (fun _ => .plain 0 none) 1).push (.plain 0 (some .first))).1
  | .empty => .construct (fun _ => .plain 0 none) 1

/-- Random numbers and timestamps that are all zero, and nobody who asks for a stop. -/
def noStop : CheckChoices := ⟨fun _ => 0, fun _ => 0, fun _ => false⟩

theorem post_fill_check_onePage :
    ((Sat.small 1 0).postFillCheckCoarse noStop 1 onePage .blank).result = true := by
  have h : AllInValid [.plain 0 (some .first)] onePage := by
    constructor
    · intro kind
      cases kind <;> rfl
    · rfl
    · rfl
    · intro pe hpe
      rw [List.mem_singleton.mp hpe]
      rfl
  exact ((post_fill_check (Sat.small 1 0) noStop .blank).1 _ onePage h).1

end StressAppTest
