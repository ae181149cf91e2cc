import StressAppTest.Memory.Check

/-!
# `CheckRegion` with its reports (`worker.cc`)

`Sat.checkRegion` is the memory and the count of `CheckRegion`. Here is the function with
everything it does: the scan that records up to 128 wrong words and breaks off at the next one,
the search for a block of another pattern, the calls of `ProcessError` for the recorded words,
and the second scan from where the first one stopped. `none` is a failed assertion.

* `report_region`: each wrong word is reported, counted and repaired exactly once, however many
  there are, and nothing else is written.
* `reportRegion_eq`: `Sat.checkRegion` is what is left of it without the reports.
-/

namespace StressAppTest.Sat

/-! ## Reports -/

/-- The arguments of `CheckRegion`. `patternId` is the entry of the pattern list that
`pattern` points to; `patternOffset` enters modulo `2 ^ 32` only. -/
structure Region where
  addr : Nat
  pattern : Pattern
  patternId : Option Nat
  lastcpu : Nat
  length : Nat
  offset : Nat
  patternOffset : Nat
  writeDramFrequency : Int
  workerName : String
  phase : String
  satPageOffset : Word64

/-- The fields of `struct ErrorRecord` that `CheckRegion` sets. -/
structure RegionError where
  actual : Word64
  expected : Word64
  vaddr : Nat
  patternname : String
  workerName : String
  phase : String
  patternByteOffset : Nat
  satPageOffset : Word64
  offsetInPage : Nat
  lastcpu : Nat
  writeDramFrequency : Int
  readDramFrequency : Int

/-- `errormessage` -/
inductive ErrorMessage
  | hardwareError
  | pageError
  | blockError
  deriving DecidableEq, Repr

def ErrorMessage.text : ErrorMessage → String
  | .hardwareError => "Hardware Error"
  | .pageError => "Page Error"
  | .blockError => "Block Error"

/-- A call of `ProcessError`, with the value it has reread. -/
structure ErrorCall where
  error : RegionError
  reread : Word64
  priority : Nat
  message : ErrorMessage

/-- The word a call is about: its address, what was read, reread and expected there, and its
offset in the page. -/
def ErrorCall.word (c : ErrorCall) : Nat × Word64 × Word64 × Word64 × Nat :=
  (c.error.vaddr, c.error.actual, c.reread, c.error.expected, c.error.offsetInPage)

/-- The values of a "Block Error" line: the entry of the pattern list it names, the address
and the two names, the size and the range. -/
structure BlockError where
  pat : Nat
  vaddr : Nat
  altname : String
  name : String
  bytes : Nat
  fromOffset : Nat
  toOffset : Nat

/-- The memory, `errorcount_`, and what has been reported and stored so far. -/
structure Reports where
  mem : Mem
  errorcount : Nat
  calls : List ErrorCall
  stores : List (Nat × Word64)
  blockErrors : List BlockError

/-- `WorkerThread::ProcessError` and `FileThread::ProcessError`: they print and count for the
diagnoser in different ways; both reread the word, assert that the record is an error and
store the expected value. -/
def processError (w : Reports) (error : RegionError) (priority : Nat) (message : ErrorMessage) :
    Option Reports :=
  if error.expected = error.actual then none
  else some { w with
    mem := Function.update w.mem error.vaddr error.expected
    calls := w.calls ++ [⟨error, w.mem error.vaddr, priority, message⟩]
    stores := w.stores ++ [(error.vaddr, error.expected)] }

/-! ## `CheckRegion` -/

/-- The value that should be at word `i`. -/
def expected (sat : Sat) (r : Region) (i : Nat) : Word64 :=
  sat.regionWord r.addr r.pattern r.patternOffset i

/-- The record of word `i`. -/
def errorRecord (sat : Sat) (r : Region) (frequency : Nat → Int) (mem : Mem) (i : Nat) :
    RegionError where
  actual := mem (r.addr + i)
  expected := sat.expected r i
  vaddr := r.addr + i
  patternname := r.pattern.name
  workerName := r.workerName
  phase := r.phase
  patternByteOffset := r.pattern.byteOffset
  satPageOffset := r.satPageOffset
  offsetInPage := r.offset + i * 8
  lastcpu := r.lastcpu
  writeDramFrequency := r.writeDramFrequency
  readDramFrequency := frequency i

/-- `recorded`, `page_error` and `overflow_start_word`; `errors` is the number of records. -/
structure FirstScan where
  recorded : List RegionError
  pageError : Bool
  overflowStartWord : Int

/-- The first loop, with `k` words left from word `i` on. -/
def firstScan (sat : Sat) (r : Region) (frequency : Nat → Int) (mem : Mem) :
    Nat → Nat → FirstScan → FirstScan
  | 0, _, s => s
  | k + 1, i, s =>
    if mem (r.addr + i) ≠ sat.expected r i then
      if s.recorded.length < kErrorLimit then
        sat.firstScan r frequency mem k (i + 1)
          { s with recorded := s.recorded ++ [sat.errorRecord r frequency mem i] }
      else { s with pageError := true, overflowStartWord := i }
    else sat.firstScan r frequency mem k (i + 1) s

/-- The states of the block search. -/
inductive BlockState
  | good
  | bad
  | goodAgain
  | noMatch
  deriving DecidableEq, Repr

structure BlockScan where
  state : BlockState
  badstart : Nat
  badend : Nat

/-- The loop of the block search, with `k` words left from word `i` on. -/
def blockScan (actual expected possible : Nat → Word64) : Nat → Nat → BlockScan → BlockScan
  | 0, _, s => s
  | k + 1, i, s =>
    match s.state with
    | .good =>
      if actual i = expected i then blockScan actual expected possible k (i + 1) s
      else if actual i = possible i then blockScan actual expected possible k (i + 1) ⟨.bad, i, i⟩
      else { s with state := .noMatch }
    | .bad =>
      if actual i = possible i then
        blockScan actual expected possible k (i + 1) { s with badend := i }
      else if actual i = expected i then
        blockScan actual expected possible k (i + 1) { s with state := .goodAgain }
      else { s with state := .noMatch }
    | .goodAgain =>
      if actual i = expected i then blockScan actual expected possible k (i + 1) s
      else { s with state := .noMatch }
    | .noMatch => s

/-- The word of a pattern at word `i` of a region, without tags. -/
def patternData (p : Pattern) (patternOffset i : Nat) : Word64 :=
  datacast (p.pattern (2 * i + patternOffset)) (p.pattern (2 * i + patternOffset + 1))

/-- The search for the pattern `alt`, the entry `pat` of the list. -/
def blockErrorOf (r : Region) (mem : Mem) (pat : Nat) (alt : Pattern) : Option BlockError :=
  let s := blockScan (fun i => mem (r.addr + i)) (patternData r.pattern r.patternOffset)
    (patternData alt r.patternOffset) (r.length / 8) 0 ⟨.good, 0, 0⟩
  if r.patternId = some pat then none
  else if s.state = .goodAgain ∨ s.state = .bad then
    some ⟨pat, r.addr + s.badstart, alt.name, r.pattern.name, (s.badend - s.badstart + 1) * 8,
      r.offset + s.badstart * 8, r.offset + s.badend * 8⟩
  else none

/-- The lines of the block search, one for each entry of the list that matches. -/
def blockErrorsOf (sat : Sat) (r : Region) (mem : Mem) : List BlockError :=
  (List.range sat.patternlist.patterns.length).filterMap fun pat =>
    (sat.patternlist.getPattern pat).bind (blockErrorOf r mem pat)

/-- The loop over the recorded errors; `err` of them have been processed. -/
def processQueue (message : ErrorMessage) : List RegionError → Nat → Reports → Option Reports
  | [], _, w => some w
  | error :: rest, err, w =>
    (processError w error (if w.errorcount + err < 30 then 0 else 5) message).bind
      (processQueue message rest (err + 1))

/-- The second loop, with `k` words left from word `i` on. -/
def overflowScan (sat : Sat) (r : Region) (frequency : Nat → Int) (message : ErrorMessage) :
    Nat → Nat → Reports → Nat → Option (Reports × Nat)
  | 0, _, w, overflowerrors => some (w, overflowerrors)
  | k + 1, i, w, overflowerrors =>
    if w.mem (r.addr + i) ≠ sat.expected r i then
      (processError w (sat.errorRecord r frequency w.mem i) 12 message).bind fun w =>
        sat.overflowScan r frequency message k (i + 1) w (overflowerrors + 1)
    else sat.overflowScan r frequency message k (i + 1) w overflowerrors

/-- The part of `CheckRegion` after the first scan. -/
def finishRegion (sat : Sat) (r : Region) (frequency : Nat → Int) (message : ErrorMessage)
    (s : FirstScan) (w : Reports) : Option (Reports × Nat) :=
  if s.pageError then
    if s.overflowStartWord < 0 then none
    else
      let start := s.overflowStartWord.toNat
      sat.overflowScan r frequency message (r.length / 8 - start) start w 0
  else some (w, 0)

/-- `WorkerThread::CheckRegion`. `frequency` is what `current_dram_frequency()` returns before
the read of a word, in the first and in the second loop. -/
def reportRegion (sat : Sat) (frequency : Bool → Nat → Int) (r : Region) (w : Reports) :
    Option (Reports × Nat) :=
  let s := sat.firstScan r (frequency false) w.mem (r.length / 8) 0 ⟨[], false, -1⟩
  let blockErrors := if s.pageError ∧ sat.tagMode = false then sat.blockErrorsOf r w.mem else []
  let message := if blockErrors ≠ [] then ErrorMessage.blockError
    else if s.pageError then .pageError else .hardwareError
  (processQueue message s.recorded 0 { w with blockErrors := w.blockErrors ++ blockErrors }).bind
    fun w => (sat.finishRegion r (frequency true) message s w).map fun done =>
      ({ done.1 with errorcount := done.1.errorcount + (s.recorded.length + done.2) },
        s.recorded.length + done.2)

/-! ## The first scan -/

variable {sat : Sat} {r : Region}

/-- The wrong words among `k` from word `i` on. -/
def wrongWords (sat : Sat) (r : Region) (mem : Mem) (i k : Nat) : List Nat :=
  (List.range' i k).filter fun j => mem (r.addr + j) ≠ sat.expected r j

theorem mem_wrongWords {mem : Mem} {i k j : Nat} :
    j ∈ sat.wrongWords r mem i k ↔ i ≤ j ∧ j < i + k ∧ mem (r.addr + j) ≠ sat.expected r j := by
  simp [wrongWords, List.mem_range'_1, and_assoc]

theorem wrongWords_succ (mem : Mem) (i k : Nat) :
    sat.wrongWords r mem i (k + 1) =
      if mem (r.addr + i) ≠ sat.expected r i then i :: sat.wrongWords r mem (i + 1) k
      else sat.wrongWords r mem (i + 1) k := by
  rw [wrongWords, List.range'_succ, List.filter_cons]
  simp only [decide_eq_true_eq]
  rfl

variable (sat r) in
/-- **The first scan** records wrong words as long as there is room and stops at the first one
without. -/
theorem firstScan_eq (frequency : Nat → Int) (mem : Mem) (k i : Nat) (s : FirstScan)
    (hs : s.recorded.length ≤ kErrorLimit) (hpage : s.pageError = false) :
    (sat.firstScan r frequency mem k i s).recorded = s.recorded ++
      ((sat.wrongWords r mem i k).take (kErrorLimit - s.recorded.length)).map
        (sat.errorRecord r frequency mem) ∧
    ((sat.wrongWords r mem i k).drop (kErrorLimit - s.recorded.length) = [] ∧
        (sat.firstScan r frequency mem k i s).pageError = false ∨
      ∃ start rest, (sat.wrongWords r mem i k).drop (kErrorLimit - s.recorded.length) = start :: rest ∧
        (sat.firstScan r frequency mem k i s).pageError = true ∧
        (sat.firstScan r frequency mem k i s).overflowStartWord = start) := by
  induction k generalizing i s with
  | zero => exact ⟨by simp [firstScan, wrongWords], Or.inl ⟨by simp [wrongWords], hpage⟩⟩
  | succ k ih =>
      rw [firstScan, wrongWords_succ]
      by_cases hbad : mem (r.addr + i) ≠ sat.expected r i
      · rw [if_pos hbad, if_pos hbad]
        by_cases hroom : s.recorded.length < kErrorLimit
        · rw [if_pos hroom]
          have hlen : (s.recorded ++ [sat.errorRecord r frequency mem i]).length = s.recorded.length + 1 := by
            simp
          have hsucc : kErrorLimit - s.recorded.length = kErrorLimit - (s.recorded.length + 1) + 1 := by
            omega
          have := ih (i + 1) { s with recorded := s.recorded ++ [sat.errorRecord r frequency mem i] }
            (by rw [hlen]; omega) hpage
          simp only [hlen] at this
          rw [hsucc, List.take_succ_cons, List.drop_succ_cons, List.map_cons]
          simpa using this
        · rw [if_neg hroom, show kErrorLimit - s.recorded.length = 0 by omega]
          exact ⟨by simp, Or.inr ⟨i, sat.wrongWords r mem (i + 1) k, rfl, rfl, rfl⟩⟩
      · rw [if_neg hbad, if_neg hbad]
        exact ih (i + 1) s hs hpage

/-! ## Reported and repaired words -/

/-- From `w` to `w'` exactly the words `l` of the region have been reported and repaired, in
this order. -/
structure Repaired (sat : Sat) (r : Region) (l : List Nat) (w w' : Reports) : Prop where
  mem : ∀ a, w'.mem a = if r.addr ≤ a ∧ a - r.addr ∈ l then sat.expected r (a - r.addr) else w.mem a
  errorcount : w'.errorcount = w.errorcount
  calls : ∃ calls, w'.calls = w.calls ++ calls ∧ calls.map ErrorCall.word = l.map fun i =>
    (r.addr + i, w.mem (r.addr + i), w.mem (r.addr + i), sat.expected r i, r.offset + i * 8)
  stores : w'.stores = w.stores ++ l.map fun i => (r.addr + i, sat.expected r i)
  blockErrors : w'.blockErrors = w.blockErrors

theorem Repaired.refl (w : Reports) : sat.Repaired r [] w w where
  mem a := by simp
  errorcount := rfl
  calls := ⟨[], by simp, rfl⟩
  stores := by simp
  blockErrors := rfl

/-- What has not been repaired is as it was. -/
theorem Repaired.other {l : List Nat} {w w' : Reports} (h : sat.Repaired r l w w') {i : Nat} (hi : i ∉ l) :
    w'.mem (r.addr + i) = w.mem (r.addr + i) := by
  rw [h.mem, if_neg]
  rintro ⟨-, hmem⟩
  rw [Nat.add_sub_cancel_left] at hmem
  exact hi hmem

/-- Repairs of different words follow each other. -/
theorem Repaired.trans {l l' : List Nat} {w w' w'' : Reports} (h : sat.Repaired r l w w')
    (h' : sat.Repaired r l' w' w'') (hdisj : ∀ i ∈ l', i ∉ l) : sat.Repaired r (l ++ l') w w'' where
  mem a := by
    rw [h'.mem, h.mem]
    by_cases ha : r.addr ≤ a
    · simp only [ha, true_and, List.mem_append]
      by_cases hl' : a - r.addr ∈ l'
      · simp [hl']
      · simp [hl']
    · simp [ha]
  errorcount := h'.errorcount.trans h.errorcount
  calls := by
    obtain ⟨calls, heq, hwords⟩ := h.calls
    obtain ⟨calls', heq', hwords'⟩ := h'.calls
    refine ⟨calls ++ calls', by rw [heq', heq, List.append_assoc], ?_⟩
    rw [List.map_append, List.map_append, hwords, hwords']
    congr 1
    refine List.map_congr_left fun i hi => ?_
    rw [h.other (hdisj i hi)]
  stores := by rw [h'.stores, h.stores, List.map_append, List.append_assoc]
  blockErrors := h'.blockErrors.trans h.blockErrors

/-- `ProcessError` of a wrong word does not fail. -/
theorem processError_repaired {w : Reports} {i : Nat} {frequency : Nat → Int} {mem : Mem}
    (hmem : mem (r.addr + i) = w.mem (r.addr + i)) (hbad : mem (r.addr + i) ≠ sat.expected r i)
    (priority : Nat) (message : ErrorMessage) :
    ∃ w', processError w (sat.errorRecord r frequency mem i) priority message = some w' ∧
      sat.Repaired r [i] w w' := by
  refine ⟨_, if_neg (Ne.symm hbad), ?_⟩
  constructor
  · intro a
    by_cases ha : a = r.addr + i
    · subst ha
      simp [errorRecord]
    · have : ¬ (r.addr ≤ a ∧ a - r.addr ∈ [i]) := by
        rw [List.mem_singleton]
        omega
      rw [if_neg this]
      exact Function.update_of_ne ha _ _
  · rfl
  · refine ⟨_, rfl, ?_⟩
    simp [ErrorCall.word, errorRecord, hmem]
  · rfl
  · rfl

variable (sat r) in
/-- **The queue.** The recorded words are reported and repaired in their order. -/
theorem processQueue_repaired (message : ErrorMessage) (frequency : Nat → Int) {mem : Mem}
    {l : List Nat} (hnodup : l.Nodup) (hbad : ∀ i ∈ l, mem (r.addr + i) ≠ sat.expected r i)
    (err : Nat) {w : Reports} (hmem : ∀ i ∈ l, mem (r.addr + i) = w.mem (r.addr + i)) :
    ∃ w', processQueue message (l.map (sat.errorRecord r frequency mem)) err w = some w' ∧
      sat.Repaired r l w w' := by
  induction l generalizing w err with
  | nil => exact ⟨w, rfl, .refl w⟩
  | cons i l ih =>
      rw [List.nodup_cons] at hnodup
      rw [List.forall_mem_cons] at hbad hmem
      obtain ⟨w₁, hone, hrep⟩ := processError_repaired hmem.1 hbad.1
        (if w.errorcount + err < 30 then 0 else 5) message
      have hother : ∀ j ∈ l, j ∉ [i] := by
        intro j hj
        rw [List.mem_singleton]
        rintro rfl
        exact hnodup.1 hj
      obtain ⟨w₂, hrest, hrep'⟩ := ih hnodup.2 hbad.2 (err + 1) (w := w₁) fun j hj =>
        (hmem.2 j hj).trans (hrep.other (hother j hj)).symm
      refine ⟨w₂, ?_, hrep.trans hrep' hother⟩
      rw [List.map_cons, processQueue, hone, Option.bind_some, hrest]

variable (sat r) in
/-- **The second scan.** Each repair leaves the words after it as they were, so the scan finds
the words that were wrong before it. -/
theorem overflowScan_repaired (frequency : Nat → Int) (message : ErrorMessage) (k i : Nat)
    (w : Reports) (n : Nat) :
    ∃ w', sat.overflowScan r frequency message k i w n =
        some (w', n + (sat.wrongWords r w.mem i k).length) ∧
      sat.Repaired r (sat.wrongWords r w.mem i k) w w' := by
  induction k generalizing i w n with
  | zero => exact ⟨w, rfl, .refl w⟩
  | succ k ih =>
      rw [overflowScan, wrongWords_succ]
      by_cases hbad : w.mem (r.addr + i) ≠ sat.expected r i
      · obtain ⟨w₁, hone, hrep⟩ : ∃ w₁, processError w (sat.errorRecord r frequency w.mem i) 12 message =
            some w₁ ∧ sat.Repaired r [i] w w₁ := processError_repaired rfl hbad 12 message
        have hlater : ∀ j ∈ sat.wrongWords r w.mem (i + 1) k, j ∉ [i] := by
          intro j hj
          rw [List.mem_singleton]
          have := (mem_wrongWords.mp hj).1
          omega
        have hsame : sat.wrongWords r w₁.mem (i + 1) k = sat.wrongWords r w.mem (i + 1) k := by
          refine List.filter_congr fun j hj => ?_
          have : j ∉ [i] := by
            rw [List.mem_singleton]
            rw [List.mem_range'_1] at hj
            omega
          rw [hrep.other this]
        obtain ⟨w₂, hrest, hrep'⟩ := ih (i + 1) w₁ (n + 1)
        rw [hsame] at hrest hrep'
        rw [if_pos hbad, if_pos hbad, hone, Option.bind_some, hrest]
        refine ⟨w₂, ?_, hrep.trans hrep' hlater⟩
        rw [List.length_cons, Nat.add_right_comm, Nat.add_assoc]
      · rw [if_neg hbad, if_neg hbad]
        exact ih (i + 1) w n

variable (sat r) in
theorem nodup_wrongWords (mem : Mem) (i k : Nat) : (sat.wrongWords r mem i k).Nodup :=
  List.Pairwise.filter _ List.nodup_range'

/-- The wrong words from one of them on. -/
theorem wrongWords_from {mem : Mem} {i k m start : Nat} {rest : List Nat}
    (h : (sat.wrongWords r mem i k).drop m = start :: rest) :
    sat.wrongWords r mem start (i + k - start) = start :: rest := by
  induction k generalizing i m with
  | zero => simp [wrongWords] at h
  | succ k ih =>
      by_cases hbad : mem (r.addr + i) ≠ sat.expected r i
      · rw [wrongWords_succ, if_pos hbad] at h
        cases m with
        | zero =>
            rw [List.drop_zero, List.cons.injEq] at h
            obtain ⟨rfl, rfl⟩ := h
            rw [Nat.add_sub_cancel_left, wrongWords_succ, if_pos hbad]
        | succ m =>
            rw [List.drop_succ_cons] at h
            have := ih h
            rwa [show i + 1 + k = i + (k + 1) by omega] at this
      · rw [wrongWords_succ, if_neg hbad] at h
        have := ih h
        rwa [show i + 1 + k = i + (k + 1) by omega] at this

/-! ## The whole function -/

/-- The wrong words of the region, in ascending order. -/
def mismatches (sat : Sat) (r : Region) (mem : Mem) : List Nat := sat.wrongWords r mem 0 (r.length / 8)

/-- The "Block Error" lines of a call: the search runs when the records have overflowed, and
not in tag mode. -/
def blockLines (sat : Sat) (r : Region) (mem : Mem) : List BlockError :=
  if kErrorLimit < (sat.mismatches r mem).length ∧ sat.tagMode = false then sat.blockErrorsOf r mem
  else []

/-- After the queue, the second scan completes the repairs. -/
theorem finishRegion_repaired (frequency frequency' : Nat → Int) (message : ErrorMessage) {w w₁ : Reports}
    (hrep : sat.Repaired r ((sat.mismatches r w.mem).take kErrorLimit) w w₁) :
    ∃ w', sat.finishRegion r frequency message
        (sat.firstScan r frequency' w.mem (r.length / 8) 0 ⟨[], false, -1⟩) w₁ =
          some (w', ((sat.mismatches r w.mem).drop kErrorLimit).length) ∧
      sat.Repaired r (sat.mismatches r w.mem) w w' := by
  obtain ⟨-, hscan⟩ := firstScan_eq sat r frequency' w.mem (r.length / 8) 0 ⟨[], false, -1⟩
    (Nat.zero_le _) rfl
  change (sat.mismatches r w.mem).drop kErrorLimit = [] ∧ _ ∨
    ∃ start rest, (sat.mismatches r w.mem).drop kErrorLimit = start :: rest ∧ _ at hscan
  have happend := List.take_append_drop kErrorLimit (sat.mismatches r w.mem)
  rcases hscan with ⟨hdrop, hpage⟩ | ⟨start, rest, hdrop, hpage, hstart⟩
  · rw [hdrop, List.append_nil] at happend
    rw [happend] at hrep
    refine ⟨w₁, ?_, hrep⟩
    rw [finishRegion, hpage, hdrop]
    rfl
  · have hfrom := wrongWords_from hdrop
    rw [Nat.zero_add] at hfrom
    -- the words of the second scan are not among the repaired ones
    have hother : ∀ i ∈ start :: rest, i ∉ (sat.mismatches r w.mem).take kErrorLimit := by
      have hnodup := nodup_wrongWords sat r w.mem 0 (r.length / 8)
      change (sat.mismatches r w.mem).Nodup at hnodup
      rw [← happend, hdrop, List.nodup_append] at hnodup
      intro i hi htake
      exact hnodup.2.2 i htake i hi rfl
    have hsorted : (sat.mismatches r w.mem).Pairwise (· < ·) :=
      List.Pairwise.filter _ List.pairwise_lt_range'
    rw [← happend, hdrop, List.pairwise_append] at hsorted
    have hsame : sat.wrongWords r w₁.mem start (r.length / 8 - start) = start :: rest := by
      rw [← hfrom]
      refine List.filter_congr fun j hj => ?_
      rw [List.mem_range'_1] at hj
      have : j ∉ (sat.mismatches r w.mem).take kErrorLimit := by
        intro hmem
        have := hsorted.2.2 j hmem start List.mem_cons_self
        omega
      rw [hrep.other this]
    obtain ⟨w', hover, hrep'⟩ := overflowScan_repaired sat r frequency message
      (r.length / 8 - start) start w₁ 0
    rw [hsame, Nat.zero_add] at hover
    rw [hsame] at hrep'
    refine ⟨w', ?_, ?_⟩
    · rw [finishRegion, hpage, hstart, hdrop]
      simpa using hover
    · rw [← happend, hdrop]
      exact hrep.trans hrep' hother

variable (sat r) in
/-- The queue and the second scan together repair every wrong word. -/
theorem reportRegion_repaired (frequency : Bool → Nat → Int) (w : Reports) :
    ∃ w', sat.reportRegion frequency r w = some (w', (sat.mismatches r w.mem).length) ∧
      sat.Repaired r (sat.mismatches r w.mem)
        { w with
          errorcount := w.errorcount + (sat.mismatches r w.mem).length
          blockErrors := w.blockErrors ++ sat.blockLines r w.mem } w' := by
  obtain ⟨hrecorded, hscan⟩ := firstScan_eq sat r (frequency false) w.mem (r.length / 8) 0
    ⟨[], false, -1⟩ (Nat.zero_le _) rfl
  rw [List.nil_append] at hrecorded
  change (sat.firstScan r (frequency false) w.mem (r.length / 8) 0 ⟨[], false, -1⟩).recorded =
    ((sat.mismatches r w.mem).take kErrorLimit).map (sat.errorRecord r (frequency false) w.mem) at hrecorded
  change (sat.mismatches r w.mem).drop kErrorLimit = [] ∧ _ ∨
    ∃ start rest, (sat.mismatches r w.mem).drop kErrorLimit = start :: rest ∧ _ at hscan
  have hpage : ((sat.firstScan r (frequency false) w.mem (r.length / 8) 0 ⟨[], false, -1⟩).pageError : Prop) ↔
      kErrorLimit < (sat.mismatches r w.mem).length := by
    rcases hscan with ⟨hdrop, hpage⟩ | ⟨start, rest, hdrop, hpage, -⟩
    · rw [List.drop_eq_nil_iff] at hdrop
      simp only [hpage, Bool.false_eq_true, false_iff, Nat.not_lt]
      exact hdrop
    · have := congrArg List.length hdrop
      rw [List.length_drop, List.length_cons] at this
      simp only [hpage, true_iff]
      omega
  have hblocks : (if (sat.firstScan r (frequency false) w.mem (r.length / 8) 0 ⟨[], false, -1⟩).pageError ∧
      sat.tagMode = false then sat.blockErrorsOf r w.mem else []) = sat.blockLines r w.mem :=
    if_congr (and_congr hpage Iff.rfl) rfl rfl
  have hlength : ((sat.mismatches r w.mem).take kErrorLimit).length +
      ((sat.mismatches r w.mem).drop kErrorLimit).length = (sat.mismatches r w.mem).length := by
    rw [← List.length_append, List.take_append_drop]
  have hbad : ∀ i ∈ (sat.mismatches r w.mem).take kErrorLimit,
      w.mem (r.addr + i) ≠ sat.expected r i := fun i hi =>
    (mem_wrongWords.mp (List.mem_of_mem_take hi)).2.2
  have hnodup : ((sat.mismatches r w.mem).take kErrorLimit).Nodup :=
    (nodup_wrongWords sat r w.mem 0 (r.length / 8)).sublist (List.take_sublist _ _)
  simp only [reportRegion, hblocks]
  generalize (if sat.blockLines r w.mem ≠ [] then ErrorMessage.blockError else
    if (sat.firstScan r (frequency false) w.mem (r.length / 8) 0 ⟨[], false, -1⟩).pageError = true then
      ErrorMessage.pageError else ErrorMessage.hardwareError) = message
  let w₀ : Reports := { w with blockErrors := w.blockErrors ++ sat.blockLines r w.mem }
  obtain ⟨w₁, hqueue, hrep⟩ := processQueue_repaired sat r message (frequency false) hnodup hbad 0
    (w := w₀) fun _ _ => rfl
  obtain ⟨w', hfinish, hrep'⟩ := finishRegion_repaired (w := w₀) (frequency true) (frequency false) message hrep
  rw [hrecorded, hqueue, Option.bind_some, hfinish, Option.map_some, List.length_map, hlength]
  refine ⟨_, rfl, ?_⟩
  exact ⟨hrep'.mem, by rw [hrep'.errorcount], hrep'.calls, hrep'.stores, hrep'.blockErrors⟩

theorem mem_mismatches {mem : Mem} {i : Nat} :
    i ∈ sat.mismatches r mem ↔ i < r.length / 8 ∧ mem (r.addr + i) ≠ sat.expected r i := by
  rw [mismatches, mem_wrongWords]
  constructor
  · rintro ⟨-, hlt, hbad⟩
    exact ⟨by omega, hbad⟩
  · rintro ⟨hlt, hbad⟩
    exact ⟨Nat.zero_le i, by omega, hbad⟩

/-- Once the wrong words are repaired, the region holds what it should. -/
theorem repaired_mem_eq {mem mem' : Mem} (h : ∀ a, mem' a =
      if r.addr ≤ a ∧ a - r.addr ∈ sat.mismatches r mem then sat.expected r (a - r.addr) else mem a) :
    mem' = writeWords mem r.addr (r.length / 8) (sat.expected r) := by
  funext a
  rw [h, writeWords]
  by_cases hin : r.addr ≤ a ∧ a < r.addr + r.length / 8
  · have ha : r.addr + (a - r.addr) = a := by omega
    rw [if_pos hin]
    by_cases hbad : mem a = sat.expected r (a - r.addr)
    · rw [if_neg, hbad]
      rintro ⟨-, hmem⟩
      rw [mem_mismatches, ha] at hmem
      exact hmem.2 hbad
    · rw [if_pos]
      refine ⟨hin.1, mem_mismatches.mpr ⟨by omega, ?_⟩⟩
      rwa [ha]
  · rw [if_neg hin, if_neg]
    rintro ⟨hle, hmem⟩
    have := (mem_mismatches.mp hmem).1
    omega

/-- **Every mismatch once.** `CheckRegion` returns and counts the number of wrong words,
reports each of them in ascending order with its values and its offset, stores to these words
only, and leaves the region right. No assertion fails. -/
theorem report_region (sat : Sat) (r : Region) (frequency : Bool → Nat → Int) (w : Reports) :
    ∃ w' calls,
      sat.reportRegion frequency r w = some (w', (sat.mismatches r w.mem).length) ∧
      (∀ i, i ∈ sat.mismatches r w.mem ↔
        i < r.length / 8 ∧ w.mem (r.addr + i) ≠ sat.expected r i) ∧
      (sat.mismatches r w.mem).Pairwise (· < ·) ∧
      w'.errorcount = w.errorcount + (sat.mismatches r w.mem).length ∧
      w'.calls = w.calls ++ calls ∧
      calls.map ErrorCall.word = (sat.mismatches r w.mem).map (fun i =>
        (r.addr + i, w.mem (r.addr + i), w.mem (r.addr + i), sat.expected r i, r.offset + i * 8)) ∧
      w'.stores = w.stores ++ (sat.mismatches r w.mem).map (fun i => (r.addr + i, sat.expected r i)) ∧
      (∀ i < r.length / 8, w'.mem (r.addr + i) = sat.expected r i) ∧
      ∀ a, ¬ (r.addr ≤ a ∧ a < r.addr + r.length / 8) → w'.mem a = w.mem a := by
  obtain ⟨w', hrun, hrep⟩ := reportRegion_repaired sat r frequency w
  obtain ⟨calls, hcalls, hwords⟩ := hrep.calls
  have hmem := repaired_mem_eq hrep.mem
  refine ⟨w', calls, hrun, fun i => mem_mismatches, List.Pairwise.filter _ List.pairwise_lt_range',
    hrep.errorcount, hcalls, hwords, hrep.stores, ?_, ?_⟩
  · intro i hi
    rw [hmem]
    exact writeWords_apply hi
  · intro a ha
    rw [hmem]
    exact writeWords_of_notMem ha

/-! ## The model without reports -/

theorem foldl_repair_apply (addr : Nat) (p : Pattern) (patternOffset : Nat) (l : List Nat) (mem : Mem)
    (a : Nat) : l.foldl (sat.repair addr p patternOffset) mem a =
      if addr ≤ a ∧ a - addr ∈ l then sat.regionWord addr p patternOffset (a - addr) else mem a := by
  induction l generalizing mem with
  | nil => simp
  | cons i l ih =>
      rw [List.foldl_cons, ih, repair]
      by_cases hl : addr ≤ a ∧ a - addr ∈ l
      · rw [if_pos hl, if_pos ⟨hl.1, List.mem_cons_of_mem _ hl.2⟩]
      · rw [if_neg hl]
        by_cases ha : a = addr + i
        · subst ha
          rw [Function.update_self, if_pos ⟨by omega, by simp⟩, Nat.add_sub_cancel_left]
        · rw [Function.update_of_ne ha, if_neg]
          rintro ⟨hle, hmem⟩
          rcases List.mem_cons.mp hmem with heq | hmem
          · omega
          · exact hl ⟨hle, hmem⟩

/-- The second scan of `Sat.checkRegion`. -/
theorem forUpTo_overflowPass (r : Region) (start : Nat) (mem : Mem) (k : Nat) :
    forUpTo k (fun j => sat.overflowPass r.addr r.pattern r.patternOffset (start + j)) (mem, 0) =
      (writeWords mem (r.addr + start) k fun j => sat.expected r (start + j),
        (sat.wrongWords r mem start k).length) := by
  induction k with
  | zero => rw [writeWords_zero]; rfl
  | succ k ih =>
      have hread : writeWords mem (r.addr + start) k (fun j => sat.expected r (start + j))
          (r.addr + (start + k)) = mem (r.addr + (start + k)) := writeWords_of_notMem (by omega)
      have hwrong : sat.wrongWords r mem start (k + 1) = sat.wrongWords r mem start k ++
          if mem (r.addr + (start + k)) ≠ sat.expected r (start + k) then [start + k] else [] := by
        rw [wrongWords, List.range'_concat, List.filter_append, Nat.one_mul]
        congr 1
        simp only [List.filter_cons, List.filter_nil, decide_eq_true_eq]
      have hnext : Function.update (writeWords mem (r.addr + start) k fun j => sat.expected r (start + j))
          (r.addr + (start + k)) (sat.expected r (start + k)) =
            writeWords mem (r.addr + start) (k + 1) fun j => sat.expected r (start + j) := by
        funext a
        by_cases ha : a = r.addr + (start + k)
        · subst ha
          rw [Function.update_self, ← Nat.add_assoc, writeWords_apply (Nat.lt_succ_self k)]
        · rw [Function.update_of_ne ha, writeWords, writeWords]
          exact if_congr (by omega) rfl rfl
      have hword : sat.regionWord r.addr r.pattern r.patternOffset (start + k) =
          sat.expected r (start + k) := rfl
      simp only [forUpTo, ih, overflowPass, hread, hword]
      rw [hwrong]
      by_cases hbad : mem (r.addr + (start + k)) ≠ sat.expected r (start + k)
      · rw [if_pos hbad, if_pos hbad, repair, List.length_append]
        exact Prod.ext hnext rfl
      · rw [if_neg hbad, if_neg hbad, List.append_nil, ← hnext]
        refine Prod.ext ?_ rfl
        have hgood : sat.expected r (start + k) = writeWords mem (r.addr + start) k
            (fun j => sat.expected r (start + j)) (r.addr + (start + k)) := by
          rw [hread]
          exact (not_not.mp hbad).symm
        rw [hgood, Function.update_eq_self]

/-- `Sat.checkRegion` in closed form. -/
theorem checkRegion_eq (sat : Sat) (r : Region) (mem : Mem) :
    sat.checkRegion mem r.addr r.pattern r.length r.patternOffset =
      (writeWords mem r.addr (r.length / 8) (sat.expected r), (sat.mismatches r mem).length) := by
  have hbad : (List.range (r.length / 8)).filter (fun i =>
      mem (r.addr + i) != sat.regionWord r.addr r.pattern r.patternOffset i) = sat.mismatches r mem := by
    rw [mismatches, wrongWords, List.range_eq_range']
    refine List.filter_congr fun i _ => ?_
    rw [Bool.eq_iff_iff, bne_iff_ne, decide_eq_true_eq]
    rfl
  have happend := List.take_append_drop kErrorLimit (sat.mismatches r mem)
  simp only [checkRegion, hbad]
  cases hdrop : (sat.mismatches r mem).drop kErrorLimit with
  | nil =>
      rw [hdrop, List.append_nil] at happend
      simp only [List.head?_nil, happend]
      exact Prod.ext (repaired_mem_eq fun a => foldl_repair_apply _ _ _ _ _ a) rfl
  | cons start rest =>
      have hfrom := wrongWords_from hdrop
      rw [Nat.zero_add] at hfrom
      rw [hdrop] at happend
      have hsorted : (sat.mismatches r mem).Pairwise (· < ·) :=
        List.Pairwise.filter _ List.pairwise_lt_range'
      rw [← happend, List.pairwise_append] at hsorted
      have hstart : start < r.length / 8 := by
        have : start ∈ sat.mismatches r mem := by
          rw [← happend]
          simp
        exact (mem_mismatches.mp this).1
      let repaired := ((sat.mismatches r mem).take kErrorLimit).foldl
        (sat.repair r.addr r.pattern r.patternOffset) mem
      have hrepaired : ∀ a, repaired a = if r.addr ≤ a ∧ a - r.addr ∈ (sat.mismatches r mem).take kErrorLimit
          then sat.expected r (a - r.addr) else mem a := fun a => foldl_repair_apply _ _ _ _ _ a
      have hlater : ∀ j, start ≤ j → repaired (r.addr + j) = mem (r.addr + j) := by
        intro j hj
        rw [hrepaired, if_neg]
        rintro ⟨-, hmem⟩
        rw [Nat.add_sub_cancel_left] at hmem
        have := hsorted.2.2 j hmem start List.mem_cons_self
        omega
      have hsame : sat.wrongWords r repaired start (r.length / 8 - start) = start :: rest := by
        rw [← hfrom]
        refine List.filter_congr fun j hj => ?_
        rw [List.mem_range'_1] at hj
        rw [hlater j hj.1]
      simp only [List.head?_cons]
      rw [forUpTo_overflowPass, hsame, ← List.length_append, happend]
      refine Prod.ext (repaired_mem_eq fun a => ?_) rfl
      change writeWords repaired (r.addr + start) (r.length / 8 - start)
        (fun j => sat.expected r (start + j)) a = _
      rw [writeWords]
      by_cases hin : r.addr + start ≤ a ∧ a < r.addr + start + (r.length / 8 - start)
      · -- the second scan has made this word right
        have ha : r.addr + (a - r.addr) = a := by omega
        rw [if_pos hin, show start + (a - (r.addr + start)) = a - r.addr by omega]
        by_cases hmem : r.addr ≤ a ∧ a - r.addr ∈ sat.mismatches r mem
        · rw [if_pos hmem]
        · rw [if_neg hmem]
          by_contra hne
          refine hmem ⟨by omega, mem_mismatches.mpr ⟨by omega, ?_⟩⟩
          rw [ha]
          exact Ne.symm hne
      · -- before it, the recorded words are all the wrong ones
        rw [if_neg hin, hrepaired]
        refine if_congr (and_congr_right fun hle => ?_) rfl rfl
        constructor
        · exact List.mem_of_mem_take
        · intro hmem
          have hlt := (mem_mismatches.mp hmem).1
          rw [← happend, List.mem_append] at hmem
          refine hmem.resolve_right fun hrest => ?_
          rw [← hfrom, mem_wrongWords] at hrest
          omega

/-- `CheckRegion` without its reports is `Sat.checkRegion`. -/
theorem reportRegion_eq (sat : Sat) (r : Region) (frequency : Bool → Nat → Int) (w : Reports) :
    (sat.reportRegion frequency r w).map (fun done => (done.1.mem, done.2)) =
      some (sat.checkRegion w.mem r.addr r.pattern r.length r.patternOffset) := by
  obtain ⟨w', hrun, hrep⟩ := reportRegion_repaired sat r frequency w
  have hmem := repaired_mem_eq hrep.mem
  rw [hrun, Option.map_some, checkRegion_eq, hmem]

end StressAppTest.Sat
