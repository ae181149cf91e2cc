import Mathlib.Algebra.BigOperators.Group.Finset.Piecewise
import Mathlib.Data.BitVec
import Mathlib.Data.Fintype.Basic
import Mathlib.Logic.Relation

/-!
# Statistics of the diagnostic phases

A worker counts its operations in an array of its own, without a lock, and hands the array to `Sat` after
`pthread_join` (`PublishDiagnosticStats`, `MergeDiagnosticPhaseStats`). The first error of a phase is that
of the worker which has seen one first. The clock is the monotonic one, since `Initialize`.

* `Merged.merge`: one more worker is added to a total.
* `phase_statistics`: the totals are those of all workers that have been joined, whatever the order of
  their operations and joins, and each worker counts once.
-/

namespace StressAppTest.Diag.PhaseStats

inductive DiagnosticPhase where
  | presetFill
  | initialFill
  | fillImmediateCheck
  | postFillCheck
  | copyTransfer
  | copyDestinationCheck
  | invertPrecheck
  | invertRmw
  | invertPostcheck
  | runtimeCheck
  | finalCheck
  deriving DecidableEq, Repr

structure DiagnosticPhaseStats where
  blocks : BitVec 64
  readBytes : BitVec 64
  writeBytes : BitVec 64
  checksumMismatchRegions : BitVec 64
  wordMismatches : BitVec 64
  firstErrorUs : Int
  firstErrorEpoch : BitVec 64
  firstErrorWorkerBytes : BitVec 64

/-- What `InitThread` stores. -/
def DiagnosticPhaseStats.initial : DiagnosticPhaseStats := ⟨0, 0, 0, 0, 0, -1, 0, 0⟩

/-- The counters that are added up. -/
inductive Counter where
  | blocks
  | readBytes
  | writeBytes
  | checksumMismatchRegions
  | wordMismatches

def DiagnosticPhaseStats.counter (stats : DiagnosticPhaseStats) : Counter → BitVec 64
  | .blocks => stats.blocks
  | .readBytes => stats.readBytes
  | .writeBytes => stats.writeBytes
  | .checksumMismatchRegions => stats.checksumMismatchRegions
  | .wordMismatches => stats.wordMismatches

/-! ## Worker -/

/-- A call of one of the three functions that count; the phase `none` is `DIAG_PHASE_COUNT`. -/
inductive What where
  | operation (phase : Option DiagnosticPhase) (readBytes writeBytes : BitVec 64) (errors : Int)
  | checksumMismatch (phase : Option DiagnosticPhase)
  | firstError (phase : Option DiagnosticPhase)

/-- A call, with `diagnostic_elapsed_us` and `dram_frequency_epoch` at that time. -/
structure Event where
  time : Nat
  epoch : BitVec 64
  what : What

/-- The store of the first error. -/
def DiagnosticPhaseStats.setFirstError (stats : DiagnosticPhaseStats) (time : Nat) (epoch : BitVec 64) :
    DiagnosticPhaseStats :=
  if stats.firstErrorUs < 0 then
    { stats with
      firstErrorUs := time
      firstErrorEpoch := epoch
      firstErrorWorkerBytes := stats.readBytes + stats.writeBytes }
  else stats

/-- `RecordDiagnosticOperation` -/
def recordDiagnosticOperation (time : Nat) (epoch readBytes writeBytes : BitVec 64) (errors : Int)
    (stats : DiagnosticPhaseStats) : DiagnosticPhaseStats :=
  let stats := if 0 < errors then stats.setFirstError time epoch else stats
  { stats with
    blocks := stats.blocks + 1
    readBytes := stats.readBytes + readBytes
    writeBytes := stats.writeBytes + writeBytes
    wordMismatches := stats.wordMismatches + if 0 < errors then BitVec.ofInt 64 errors else 0 }

/-- `RecordDiagnosticChecksumMismatch` -/
def recordDiagnosticChecksumMismatch (stats : DiagnosticPhaseStats) : DiagnosticPhaseStats :=
  { stats with checksumMismatchRegions := stats.checksumMismatchRegions + 1 }

/-- `RecordDiagnosticFirstError` -/
def recordDiagnosticFirstError (time : Nat) (epoch : BitVec 64) (stats : DiagnosticPhaseStats) :
    DiagnosticPhaseStats := stats.setFirstError time epoch

def What.phase : What → Option DiagnosticPhase
  | .operation phase _ _ _ | .checksumMismatch phase | .firstError phase => phase

/-- What a call does to the entry of its phase. -/
def Event.record (e : Event) : DiagnosticPhaseStats → DiagnosticPhaseStats :=
  match e.what with
  | .operation _ readBytes writeBytes errors =>
      recordDiagnosticOperation e.time e.epoch readBytes writeBytes errors
  | .checksumMismatch _ => recordDiagnosticChecksumMismatch
  | .firstError _ => recordDiagnosticFirstError e.time e.epoch

/-- The array of a worker. -/
abbrev Stats := DiagnosticPhase → DiagnosticPhaseStats

def Event.apply (e : Event) (stats : Stats) : Stats :=
  match e.what.phase with
  | none => stats
  | some phase => Function.update stats phase (e.record (stats phase))

/-! ## Totals -/

/-- One phase of `MergeDiagnosticPhaseStats` -/
def DiagnosticPhaseStats.merge (total stats : DiagnosticPhaseStats) : DiagnosticPhaseStats :=
  let total := { total with
    blocks := total.blocks + stats.blocks
    readBytes := total.readBytes + stats.readBytes
    writeBytes := total.writeBytes + stats.writeBytes
    checksumMismatchRegions := total.checksumMismatchRegions + stats.checksumMismatchRegions
    wordMismatches := total.wordMismatches + stats.wordMismatches }
  if 0 ≤ stats.firstErrorUs ∧ (total.firstErrorUs < 0 ∨ stats.firstErrorUs < total.firstErrorUs) then
    { total with
      firstErrorUs := stats.firstErrorUs
      firstErrorEpoch := stats.firstErrorEpoch
      firstErrorWorkerBytes := stats.firstErrorWorkerBytes }
  else total

/-! ## All workers -/

inductive Stage where
  | fresh
  | ready
  | running
  /-- The thread has ended, or was never created. -/
  | ended
  deriving DecidableEq, Repr

/-- A `WorkerThread`. `joined` says that `pthread_join` has succeeded, and `log` are the calls so far. -/
structure Worker where
  stage : Stage
  spawned : Bool
  diagnosticPhaseStats : Option Stats
  diagnosticStatsPublished : Bool
  joined : Bool
  log : List Event

def Worker.fresh : Worker := ⟨.fresh, false, none, false, false, []⟩

structure System (ι : Type) where
  worker : ι → Worker
  total : Stats
  clock : Nat
  epoch : BitVec 64

/-- A step; `spawnThread` comes once for each worker. -/
inductive Label (ι : Type) where
  | tick (us : Nat)
  | applyDramFrequency
  | initThread (i : ι) (allocated : Bool)
  | spawnThread (i : ι) (created : Bool)
  | work (i : ι) (what : What)
  | finish (i : ι)
  | joinThread (i : ι) (joined : Bool)

variable {ι : Type} [DecidableEq ι]

namespace System

def setWorker (s : System ι) (i : ι) (w : Worker) : System ι :=
  { s with worker := Function.update s.worker i w }

/-- `PublishDiagnosticStats` of the worker `w`. -/
def publish (s : System ι) (summary : Bool) (i : ι) (w : Worker) : System ι :=
  match w.diagnosticStatsPublished, w.diagnosticPhaseStats with
  | false, some stats =>
      { s.setWorker i { w with diagnosticStatsPublished := true } with
        total := if summary then fun p => (s.total p).merge (stats p) else s.total }
  | _, _ => s.setWorker i w

variable (summary : Bool)

/-- A step under `diag_phase_summary_ = summary`. -/
def next (s : System ι) : Label ι → Option (System ι)
  | .tick us => some { s with clock := s.clock + us }
  | .applyDramFrequency => some { s with epoch := s.epoch + 1 }
  | .initThread i allocated =>
      if (s.worker i).stage = .fresh then
        some (s.setWorker i { s.worker i with
          stage := .ready
          diagnosticPhaseStats := if summary && allocated then some fun _ => .initial else none })
      else none
  | .spawnThread i created =>
      if (s.worker i).stage = .ready then
        some (s.setWorker i { s.worker i with
          stage := if created then .running else .ended, spawned := created })
      else none
  | .work i what =>
      if (s.worker i).stage = .running then
        let e : Event := ⟨s.clock, s.epoch, what⟩
        some (s.setWorker i { s.worker i with
          diagnosticPhaseStats := (s.worker i).diagnosticPhaseStats.map e.apply
          log := (s.worker i).log ++ [e] })
      else none
  | .finish i =>
      if (s.worker i).stage = .running then some (s.setWorker i { s.worker i with stage := .ended })
      else none
  | .joinThread i joined =>
      if (s.worker i).spawned = false then some s
      else if joined then
        -- `pthread_join` waits for the end of the thread
        if (s.worker i).stage = .ended then
          some (s.publish summary i { s.worker i with spawned := false, joined := true })
        else none
      else some (s.setWorker i { s.worker i with spawned := false })

def start : System ι := ⟨fun _ => .fresh, fun _ => .initial, 0, 0⟩

/-- The states of all runs. -/
def Reachable (s : System ι) : Prop :=
  Relation.ReflTransGen (fun s s' => ∃ l, next summary s l = some s') start s

def run (s : System ι) : List (Label ι) → Option (System ι)
  | [] => some s
  | l :: labels => (next summary s l).bind fun s => s.run labels

variable {summary}

theorem Reachable.run {s s' : System ι} (h : Reachable summary s) {labels : List (Label ι)}
    (hrun : s.run summary labels = some s') : Reachable summary s' := by
  induction labels generalizing s with
  | nil =>
      obtain rfl := Option.some.inj hrun
      exact h
  | cons l labels ih =>
      obtain ⟨s₁, hstep, hrest⟩ := Option.bind_eq_some_iff.mp hrun
      exact ih (h.tail ⟨l, hstep⟩) hrest

end System

/-! ## What a list of calls amounts to -/

/-- What a call adds to a counter of its phase. -/
def What.amount : What → Counter → BitVec 64
  | .operation _ _ _ _, .blocks => 1
  | .operation _ readBytes _ _, .readBytes => readBytes
  | .operation _ _ writeBytes _, .writeBytes => writeBytes
  | .operation _ _ _ errors, .wordMismatches => if 0 < errors then BitVec.ofInt 64 errors else 0
  | .checksumMismatch _, .checksumMismatchRegions => 1
  | _, _ => 0

def Event.adds (e : Event) (phase : DiagnosticPhase) (c : Counter) : BitVec 64 :=
  if e.what.phase = some phase then e.what.amount c else 0

/-- A call that reports an error of a phase. -/
def Event.IsError (e : Event) (phase : DiagnosticPhase) : Prop :=
  e.what.phase = some phase ∧
    match e.what with
    | .operation _ _ _ errors => 0 < errors
    | .checksumMismatch _ => False
    | .firstError _ => True

/-- The sum of what calls add to a counter. -/
def added (log : List Event) (phase : DiagnosticPhase) (c : Counter) : BitVec 64 :=
  (log.map fun e => e.adds phase c).sum

theorem added_append (log log' : List Event) (phase : DiagnosticPhase) (c : Counter) :
    added (log ++ log') phase c = added log phase c + added log' phase c := by
  rw [added, added, added, List.map_append, List.sum_append]

theorem added_singleton (e : Event) (phase : DiagnosticPhase) (c : Counter) :
    added [e] phase c = e.adds phase c := by
  rw [added, List.map_singleton, List.sum_singleton]

/-- The first error of a phase in a list of calls, as the entry has it. -/
def FirstError (log : List Event) (phase : DiagnosticPhase) (stats : DiagnosticPhaseStats) : Prop :=
  ∃ before e after, log = before ++ e :: after ∧ e.IsError phase ∧ (∀ e' ∈ before, ¬ e'.IsError phase) ∧
    stats.firstErrorUs = e.time ∧ stats.firstErrorEpoch = e.epoch ∧
    stats.firstErrorWorkerBytes = added before phase .readBytes + added before phase .writeBytes

/-- The entry of a phase tells what the calls of a worker amount to. -/
structure Told (log : List Event) (phase : DiagnosticPhase) (stats : DiagnosticPhaseStats) : Prop where
  counter : ∀ c, stats.counter c = added log phase c
  first : (∀ e ∈ log, ¬ e.IsError phase) ∧ stats.firstErrorUs = -1 ∨ FirstError log phase stats

theorem told_nil (phase : DiagnosticPhase) : Told [] phase .initial := by
  refine ⟨?_, Or.inl ⟨?_, rfl⟩⟩
  · intro c
    cases c <;> rfl
  · intro e he
    cases he

/-- Both entries have the same first error. -/
def SameFirst (stats' stats : DiagnosticPhaseStats) : Prop :=
  stats'.firstErrorUs = stats.firstErrorUs ∧ stats'.firstErrorEpoch = stats.firstErrorEpoch ∧
    stats'.firstErrorWorkerBytes = stats.firstErrorWorkerBytes

theorem FirstError.congr {log : List Event} {phase : DiagnosticPhase} {stats stats' : DiagnosticPhaseStats}
    (h : FirstError log phase stats) (hsame : SameFirst stats' stats) : FirstError log phase stats' := by
  obtain ⟨before, e, after, hlog, herror, hbefore, hus, hepoch, hbytes⟩ := h
  obtain ⟨hus', hepoch', hbytes'⟩ := hsame
  exact ⟨before, e, after, hlog, herror, hbefore, hus'.trans hus, hepoch'.trans hepoch,
    hbytes'.trans hbytes⟩

theorem FirstError.append {log : List Event} {phase : DiagnosticPhase} {stats : DiagnosticPhaseStats}
    (h : FirstError log phase stats) (e : Event) : FirstError (log ++ [e]) phase stats := by
  obtain ⟨before, e', after, hlog, hrest⟩ := h
  refine ⟨before, e', after ++ [e], ?_, hrest⟩
  rw [hlog, List.append_assoc, List.cons_append]

theorem FirstError.nonneg {log : List Event} {phase : DiagnosticPhase} {stats : DiagnosticPhaseStats}
    (h : FirstError log phase stats) : 0 ≤ stats.firstErrorUs := by
  obtain ⟨before, e, after, -, -, -, hus, -⟩ := h
  rw [hus]
  exact Int.natCast_nonneg _

section Told

variable {log : List Event} {phase : DiagnosticPhase} {stats : DiagnosticPhaseStats}

/-- An error is stored if it is the first one. -/
theorem Told.setFirstError (h : Told log phase stats) {e : Event} (herror : e.IsError phase) :
    FirstError (log ++ [e]) phase (stats.setFirstError e.time e.epoch) := by
  unfold DiagnosticPhaseStats.setFirstError
  rcases h.first with ⟨hnone, hus⟩ | hfirst
  · rw [if_pos (by omega)]
    have hread := h.counter .readBytes
    have hwrite := h.counter .writeBytes
    exact ⟨log, e, [], rfl, herror, hnone, rfl, rfl, congrArg₂ (· + ·) hread hwrite⟩
  · rw [if_neg (by have := hfirst.nonneg; omega)]
    exact hfirst.append e

/-- The counters do not change where the first error is stored. -/
theorem counter_setFirstError (stats : DiagnosticPhaseStats) (time : Nat) (epoch : BitVec 64) (c : Counter) :
    (stats.setFirstError time epoch).counter c = stats.counter c := by
  unfold DiagnosticPhaseStats.setFirstError
  split
  · cases c <;> rfl
  · rfl

/-- A call without an error. -/
theorem Told.first_append (h : Told log phase stats) {e : Event} (herror : ¬ e.IsError phase)
    {stats' : DiagnosticPhaseStats} (hsame : SameFirst stats' stats) :
    (∀ e' ∈ log ++ [e], ¬ e'.IsError phase) ∧ stats'.firstErrorUs = -1 ∨
      FirstError (log ++ [e]) phase stats' := by
  rcases h.first with ⟨hnone, hus⟩ | hfirst
  · refine Or.inl ⟨?_, hsame.1.trans hus⟩
    intro e' he'
    rcases List.mem_append.mp he' with he' | he'
    · exact hnone e' he'
    · rw [List.mem_singleton.mp he']
      exact herror
  · exact Or.inr ((hfirst.append e).congr hsame)

/-- A call of another phase. -/
theorem Told.other (h : Told log phase stats) {e : Event} (he : e.what.phase ≠ some phase) :
    Told (log ++ [e]) phase stats := by
  refine ⟨?_, h.first_append (fun herror => he herror.1) ⟨rfl, rfl, rfl⟩⟩
  intro c
  rw [added_append, added_singleton, Event.adds, if_neg he, add_zero]
  exact h.counter c

/-- A call of the phase. -/
theorem Told.record (h : Told log phase stats) {e : Event} (he : e.what.phase = some phase) :
    Told (log ++ [e]) phase (e.record stats) := by
  obtain ⟨time, epoch, what⟩ := e
  have hadds (c : Counter) : added (log ++ [⟨time, epoch, what⟩]) phase c =
      stats.counter c + (Event.mk time epoch what).adds phase c := by
    rw [added_append, added_singleton, h.counter]
  cases what with
  | operation phase' readBytes writeBytes errors =>
      by_cases herrors : 0 < errors
      · have hfirst := h.setFirstError (e := ⟨time, epoch, .operation phase' readBytes writeBytes errors⟩)
          ⟨he, herrors⟩
        refine ⟨?_, Or.inr ?_⟩
        · intro c
          rw [hadds, ← counter_setFirstError stats time epoch c]
          simp only [Event.record, recordDiagnosticOperation, if_pos herrors, Event.adds, if_pos he]
          cases c <;> simp [DiagnosticPhaseStats.counter, What.amount, herrors]
        · refine hfirst.congr ?_
          simp only [Event.record, recordDiagnosticOperation, if_pos herrors]
          exact ⟨rfl, rfl, rfl⟩
      · refine ⟨?_, h.first_append (fun herror => herrors herror.2) ?_⟩
        · intro c
          rw [hadds]
          simp only [Event.record, recordDiagnosticOperation, if_neg herrors, Event.adds, if_pos he]
          cases c <;> simp [DiagnosticPhaseStats.counter, What.amount, herrors]
        · refine ⟨?_, ?_, ?_⟩ <;> simp [Event.record, recordDiagnosticOperation, herrors]
  | checksumMismatch phase' =>
      refine ⟨?_, h.first_append (fun herror => herror.2) ⟨rfl, rfl, rfl⟩⟩
      intro c
      rw [hadds]
      simp only [Event.record, recordDiagnosticChecksumMismatch, Event.adds, if_pos he]
      cases c <;> simp [DiagnosticPhaseStats.counter, What.amount]
  | firstError phase' =>
      refine ⟨?_, Or.inr (h.setFirstError ⟨he, trivial⟩)⟩
      intro c
      rw [hadds]
      simp only [Event.record, recordDiagnosticFirstError, counter_setFirstError, Event.adds, if_pos he]
      cases c <;> simp [What.amount]

end Told

/-- A call keeps the whole array. -/
theorem told_apply {log : List Event} {stats : Stats} (h : ∀ phase, Told log phase (stats phase)) (e : Event)
    (phase : DiagnosticPhase) : Told (log ++ [e]) phase (e.apply stats phase) := by
  unfold Event.apply
  cases hphase : e.what.phase with
  | none => exact (h phase).other (by rw [hphase]; nofun)
  | some phase' =>
      by_cases hsame : phase = phase'
      · subst hsame
        simp only [Function.update_self]
        exact (h phase).record hphase
      · simp only [Function.update_of_ne hsame]
        refine (h phase).other ?_
        rw [hphase]
        intro heq
        exact hsame (Option.some.inj heq).symm

/-! ## One more worker -/

/-- The calls of a worker that count. -/
def Worker.reported (w : Worker) : List Event :=
  if w.joined && w.diagnosticPhaseStats.isSome then w.log else []

/-- A total of a phase tells what the calls of all workers amount to. -/
structure Merged [Fintype ι] (logs : ι → List Event) (phase : DiagnosticPhase)
    (total : DiagnosticPhaseStats) : Prop where
  counter : ∀ c, total.counter c = ∑ i, added (logs i) phase c
  first : (∀ i, ∀ e ∈ logs i, ¬ e.IsError phase) ∧ total.firstErrorUs = -1 ∨
    (∃ i, FirstError (logs i) phase total) ∧
      ∀ i, ∀ e ∈ logs i, e.IsError phase → total.firstErrorUs ≤ e.time

/-- The first error of a worker has the least time. -/
theorem FirstError.le {log : List Event} {phase : DiagnosticPhase} {stats : DiagnosticPhaseStats}
    (h : FirstError log phase stats) (hsorted : log.Pairwise fun e e' => e.time ≤ e'.time) :
    ∀ e ∈ log, e.IsError phase → stats.firstErrorUs ≤ e.time := by
  obtain ⟨before, e, after, hlog, -, hbefore, hus, -⟩ := h
  intro e' he' herror
  rw [hlog] at hsorted he'
  rcases List.mem_append.mp he' with hmem | hmem
  · exact absurd herror (hbefore e' hmem)
  · rw [hus]
    rcases List.mem_cons.mp hmem with rfl | hmem
    · exact le_refl _
    · have hle := List.rel_of_pairwise_cons (List.pairwise_append.mp hsorted).2.1 hmem
      exact_mod_cast hle

theorem counter_merge (total stats : DiagnosticPhaseStats) (c : Counter) :
    (total.merge stats).counter c = total.counter c + stats.counter c := by
  unfold DiagnosticPhaseStats.merge
  dsimp only
  split
  · cases c <;> rfl
  · cases c <;> rfl

theorem merge_takes {total stats : DiagnosticPhaseStats} (hpos : 0 ≤ stats.firstErrorUs)
    (hless : total.firstErrorUs < 0 ∨ stats.firstErrorUs < total.firstErrorUs) :
    SameFirst (total.merge stats) stats := by
  unfold DiagnosticPhaseStats.merge
  dsimp only
  rw [if_pos ⟨hpos, hless⟩]
  exact ⟨rfl, rfl, rfl⟩

theorem merge_keeps {total stats : DiagnosticPhaseStats}
    (h : stats.firstErrorUs < 0 ∨ ¬ (total.firstErrorUs < 0 ∨ stats.firstErrorUs < total.firstErrorUs)) :
    SameFirst (total.merge stats) total := by
  unfold DiagnosticPhaseStats.merge
  dsimp only
  rw [if_neg (by omega)]
  exact ⟨rfl, rfl, rfl⟩

section Merge

variable [Fintype ι] {logs : ι → List Event} {phase : DiagnosticPhase} {total : DiagnosticPhaseStats}
  {i : ι} {log : List Event} {stats : DiagnosticPhaseStats}

theorem sum_added_update (hnone : logs i = []) (log : List Event) (phase : DiagnosticPhase) (c : Counter) :
    ∑ j, added (Function.update logs i log j) phase c =
      (∑ j, added (logs j) phase c) + added log phase c := by
  have hterm (j : ι) : added (Function.update logs i log j) phase c =
      added (logs j) phase c + if j = i then added log phase c else 0 := by
    by_cases hj : j = i
    · subst hj
      rw [Function.update_self, if_pos rfl, hnone]
      exact (zero_add _).symm
    · rw [Function.update_of_ne hj, if_neg hj, add_zero]
  rw [Finset.sum_congr rfl fun j _ => hterm j, Finset.sum_add_distrib, Finset.sum_ite_eq',
    if_pos (Finset.mem_univ i)]

omit [Fintype ι] in
/-- What holds of the calls of the others and of a new worker holds of all. -/
theorem forall_update {P : Event → Prop} (hlog : ∀ e ∈ log, P e) (hlogs : ∀ j, ∀ e ∈ logs j, P e) (j : ι) :
    ∀ e ∈ Function.update logs i log j, P e := by
  by_cases hj : j = i
  · rw [hj, Function.update_self]
    exact hlog
  · rw [Function.update_of_ne hj]
    exact hlogs j

omit [Fintype ι] in
/-- The first error of a total stays where it is. -/
theorem FirstError.update {j : ι} (h : FirstError (logs j) phase total) (hnone : logs i = [])
    (log : List Event) : FirstError (Function.update logs i log j) phase total := by
  have hji : j ≠ i := by
    rintro rfl
    rw [hnone] at h
    obtain ⟨before, e, after, hnil, -⟩ := h
    exact absurd hnil (by simp)
  rw [Function.update_of_ne hji]
  exact h

/-- **One more worker is added to a total.** -/
theorem Merged.merge (h : Merged logs phase total) (hlog : Told log phase stats)
    (hsorted : log.Pairwise fun e e' => e.time ≤ e'.time) (hnone : logs i = []) :
    Merged (Function.update logs i log) phase (total.merge stats) := by
  refine ⟨?_, ?_⟩
  · intro c
    rw [counter_merge, sum_added_update hnone, h.counter, hlog.counter]
  · rcases hlog.first with ⟨hquiet, hus⟩ | hfirst
    · -- the worker has seen no error
      have hsame : SameFirst (total.merge stats) total := merge_keeps (Or.inl (by omega))
      rcases h.first with ⟨hnoerror, htotal⟩ | ⟨⟨j, hj⟩, hleast⟩
      · exact Or.inl ⟨forall_update hquiet hnoerror, hsame.1.trans htotal⟩
      · refine Or.inr ⟨⟨j, (hj.update hnone log).congr hsame⟩, ?_⟩
        rw [hsame.1]
        exact forall_update (fun e he herror => absurd herror (hquiet e he)) hleast
    · have hpos := hfirst.nonneg
      have hle := hfirst.le hsorted
      by_cases hless : total.firstErrorUs < 0 ∨ stats.firstErrorUs < total.firstErrorUs
      · -- the error of the worker is the first one
        have hsame := merge_takes hpos hless
        refine Or.inr ⟨⟨i, ?_⟩, ?_⟩
        · rw [Function.update_self]
          exact hfirst.congr hsame
        · rw [hsame.1]
          refine forall_update hle fun k e he herror => ?_
          rcases h.first with ⟨hnoerror, -⟩ | ⟨⟨j, hj⟩, hleast⟩
          · exact absurd herror (hnoerror k e he)
          · have htotal := hleast k e he herror
            have hnonneg := hj.nonneg
            omega
      · -- an earlier error, or one of the same time, has been merged
        have hsame : SameFirst (total.merge stats) total := merge_keeps (Or.inr hless)
        rcases h.first with ⟨-, htotal⟩ | ⟨⟨j, hj⟩, hleast⟩
        · exact absurd (Or.inl (by omega)) hless
        · refine Or.inr ⟨⟨j, (hj.update hnone log).congr hsame⟩, ?_⟩
          rw [hsame.1]
          refine forall_update (fun e he herror => ?_) hleast
          have hworker := hle e he herror
          omega

end Merge

/-! ## Runs -/

/-- What holds of a worker at time `clock`. -/
structure WorkerInv (summary : Bool) (clock : Nat) (w : Worker) : Prop where
  told : ∀ stats, w.diagnosticPhaseStats = some stats → ∀ phase, Told w.log phase (stats phase)
  summary : w.diagnosticPhaseStats.isSome = true → summary = true
  sorted : w.log.Pairwise fun e e' => e.time ≤ e'.time
  past : ∀ e ∈ w.log, e.time ≤ clock
  early : w.stage = .fresh ∨ w.stage = .ready → w.log = [] ∧ w.spawned = false ∧ w.joined = false
  joined : w.joined = true → w.stage = .ended ∧ w.spawned = false
  published : w.diagnosticStatsPublished = (w.joined && w.diagnosticPhaseStats.isSome)

theorem reported_of_not_joined {w : Worker} (h : w.joined = false) : w.reported = [] := by
  unfold Worker.reported
  rw [h]
  rfl

theorem reported_same {w w' : Worker} (h : w.joined = false) (h' : w'.joined = false) :
    w'.reported = w.reported := (reported_of_not_joined h').trans (reported_of_not_joined h).symm

theorem WorkerInv.not_joined {summary : Bool} {clock : Nat} {w : Worker} (hw : WorkerInv summary clock w)
    (hrunning : w.stage = .running) : w.joined = false := by
  cases hjoined : w.joined with
  | false => rfl
  | true => exact absurd ((hw.joined hjoined).1.symm.trans hrunning) nofun

structure Inv [Fintype ι] (summary : Bool) (s : System ι) : Prop where
  worker : ∀ i, WorkerInv summary s.clock (s.worker i)
  total : ∀ phase, Merged (fun i => (s.worker i).reported) phase (s.total phase)

section Inv

variable [Fintype ι] {summary : Bool} {s s' : System ι} {i : ι} {w : Worker}

/-- A worker goes on, and the totals stay as they are. -/
theorem Inv.setWorker (h : Inv summary s) (hw : WorkerInv summary s.clock w)
    (hreported : w.reported = (s.worker i).reported) : Inv summary (s.setWorker i w) := by
  refine ⟨?_, ?_⟩
  · intro j
    by_cases hj : j = i
    · subst hj
      simp only [System.setWorker, Function.update_self]
      exact hw
    · simp only [System.setWorker, Function.update_of_ne hj]
      exact h.worker j
  · intro phase
    have hlogs : (fun j => ((s.setWorker i w).worker j).reported) = fun j => (s.worker j).reported := by
      funext j
      by_cases hj : j = i
      · subst hj
        simp only [System.setWorker, Function.update_self]
        exact hreported
      · simp only [System.setWorker, Function.update_of_ne hj]
    rw [hlogs]
    exact h.total phase

theorem Inv.initThread (h : Inv summary s) (hfresh : (s.worker i).stage = .fresh) (allocated : Bool) :
    Inv summary (s.setWorker i { s.worker i with
      stage := .ready
      diagnosticPhaseStats := if summary && allocated then some fun _ => .initial else none }) := by
  have hw := h.worker i
  obtain ⟨hlog, hspawned, hjoined⟩ := hw.early (Or.inl hfresh)
  refine h.setWorker ⟨?_, ?_, hw.sorted, hw.past, fun _ => ⟨hlog, hspawned, hjoined⟩, ?_, ?_⟩ ?_
  · intro stats hstats phase
    change Told (s.worker i).log phase (stats phase)
    rw [hlog]
    split at hstats
    · obtain rfl := Option.some.inj hstats
      exact told_nil phase
    · cases hstats
  · intro hsome
    split at hsome
    · next hboth => exact (Bool.and_eq_true_iff.mp hboth).1
    · cases hsome
  · intro hj
    exact absurd (hjoined.symm.trans hj) Bool.false_ne_true
  · have hpublished := hw.published
    rw [hjoined] at hpublished
    change (s.worker i).diagnosticStatsPublished = ((s.worker i).joined && _)
    rw [hpublished, hjoined]
    rfl
  · exact reported_same hjoined hjoined

theorem Inv.spawnThread (h : Inv summary s) (hready : (s.worker i).stage = .ready) (created : Bool) :
    Inv summary (s.setWorker i { s.worker i with
      stage := if created then .running else .ended, spawned := created }) := by
  have hw := h.worker i
  obtain ⟨hlog, hspawned, hjoined⟩ := hw.early (Or.inr hready)
  refine h.setWorker ⟨hw.told, hw.summary, hw.sorted, hw.past, ?_, ?_, hw.published⟩ rfl
  · intro hstage
    cases created <;> rcases hstage with hstage | hstage <;> cases hstage
  · intro hj
    exact absurd (hjoined.symm.trans hj) Bool.false_ne_true

/-- A worker counts. -/
theorem Inv.work (h : Inv summary s) (hrunning : (s.worker i).stage = .running) (what : What) :
    Inv summary (s.setWorker i { s.worker i with
      diagnosticPhaseStats :=
        (s.worker i).diagnosticPhaseStats.map (Event.mk s.clock s.epoch what).apply
      log := (s.worker i).log ++ [⟨s.clock, s.epoch, what⟩] }) := by
  have hw := h.worker i
  have hjoined := hw.not_joined hrunning
  refine h.setWorker ⟨?_, ?_, ?_, ?_, ?_, ?_, ?_⟩ ?_
  · intro stats hstats phase
    obtain ⟨old, hold, rfl⟩ := Option.map_eq_some_iff.mp hstats
    exact told_apply (hw.told old hold) _ phase
  · intro hsome
    rw [Option.isSome_map] at hsome
    exact hw.summary hsome
  · refine List.pairwise_append.mpr ⟨hw.sorted, List.pairwise_singleton .., ?_⟩
    intro e he e' he'
    rw [List.mem_singleton.mp he']
    exact hw.past e he
  · intro e he
    rcases List.mem_append.mp he with he | he
    · exact hw.past e he
    · rw [List.mem_singleton.mp he]
  · rintro (hstage | hstage)
    · exact absurd (hrunning.symm.trans hstage) nofun
    · exact absurd (hrunning.symm.trans hstage) nofun
  · intro hj
    exact absurd (hjoined.symm.trans hj) Bool.false_ne_true
  · change (s.worker i).diagnosticStatsPublished = ((s.worker i).joined && _)
    rw [Option.isSome_map]
    exact hw.published
  · exact reported_same hjoined hjoined

theorem Inv.finish (h : Inv summary s) (hrunning : (s.worker i).stage = .running) :
    Inv summary (s.setWorker i { s.worker i with stage := .ended }) := by
  have hw := h.worker i
  have hjoined := hw.not_joined hrunning
  refine h.setWorker ⟨hw.told, hw.summary, hw.sorted, hw.past, ?_, ?_, hw.published⟩ rfl
  · rintro (hstage | hstage) <;> cases hstage
  · intro hj
    exact absurd (hjoined.symm.trans hj) Bool.false_ne_true

/-- `pthread_join` has failed. -/
theorem Inv.notJoined (h : Inv summary s) :
    Inv summary (s.setWorker i { s.worker i with spawned := false }) := by
  have hw := h.worker i
  refine h.setWorker ⟨hw.told, hw.summary, hw.sorted, hw.past, ?_, ?_, hw.published⟩ rfl
  · intro hstage
    obtain ⟨hlog, -, hjoined⟩ := hw.early hstage
    exact ⟨hlog, rfl, hjoined⟩
  · intro hj
    exact ⟨(hw.joined hj).1, rfl⟩

/-- A worker has been joined, and its statistics are published. -/
theorem Inv.publish (h : Inv summary s) (hspawned : ¬ (s.worker i).spawned = false)
    (hended : (s.worker i).stage = .ended) :
    Inv summary (s.publish summary i { s.worker i with spawned := false, joined := true }) := by
  have hw := h.worker i
  have hjoined : (s.worker i).joined = false := by
    cases hj : (s.worker i).joined with
    | false => rfl
    | true => exact absurd (hw.joined hj).2 hspawned
  have hnone := reported_of_not_joined hjoined
  have hpublished : (s.worker i).diagnosticStatsPublished = false := by
    rw [hw.published, hjoined]
    rfl
  have hearly {stage : Stage} (hstage : stage = .ended) {P : Prop} :
      stage = .fresh ∨ stage = .ready → P := by
    rintro (hfresh | hready)
    · exact absurd (hstage.symm.trans hfresh) nofun
    · exact absurd (hstage.symm.trans hready) nofun
  unfold System.publish
  cases hstats : (s.worker i).diagnosticPhaseStats with
  | none =>
      simp only [hstats, hpublished]
      refine h.setWorker ⟨nofun, nofun, hw.sorted, hw.past, hearly hended, fun _ => ⟨hended, rfl⟩, rfl⟩ ?_
      rw [hnone]
      rfl
  | some stats =>
      have hsummary : summary = true := hw.summary (by rw [hstats]; rfl)
      subst hsummary
      simp only [hpublished, if_true]
      have htold := hw.told stats hstats
      refine ⟨?_, ?_⟩
      · intro j
        by_cases hj : j = i
        · subst hj
          simp only [System.setWorker, Function.update_self]
          refine ⟨?_, fun _ => rfl, hw.sorted, hw.past, hearly hended, fun _ => ⟨hended, rfl⟩, rfl⟩
          intro stats' hstats'
          obtain rfl := Option.some.inj hstats'
          exact htold
        · simp only [System.setWorker, Function.update_of_ne hj]
          exact h.worker j
      · intro phase
        have hmerged := (h.total phase).merge (htold phase) hw.sorted hnone
        have hlogs : (fun j => (Function.update s.worker i
            { s.worker i with
              spawned := false, diagnosticPhaseStats := some stats, diagnosticStatsPublished := true,
              joined := true } j).reported) =
            Function.update (fun j => (s.worker j).reported) i (s.worker i).log := by
          funext j
          by_cases hj : j = i
          · subst hj
            rw [Function.update_self, Function.update_self]
            rfl
          · rw [Function.update_of_ne hj, Function.update_of_ne hj]
        simp only [System.setWorker]
        rw [hlogs]
        exact hmerged

/-- **A step.** -/
theorem Inv.next (h : Inv summary s) {l : Label ι} (hs : s.next summary l = some s') : Inv summary s' := by
  cases l with
  | tick us =>
      obtain rfl := Option.some.inj hs
      refine ⟨fun i => ?_, h.total⟩
      have hw := h.worker i
      exact ⟨hw.told, hw.summary, hw.sorted, fun e he => (hw.past e he).trans (Nat.le_add_right ..),
        hw.early, hw.joined, hw.published⟩
  | applyDramFrequency =>
      obtain rfl := Option.some.inj hs
      exact ⟨h.worker, h.total⟩
  | initThread i allocated =>
      simp only [System.next] at hs
      split at hs
      · next hfresh =>
        obtain rfl := Option.some.inj hs
        exact h.initThread hfresh allocated
      · cases hs
  | spawnThread i created =>
      simp only [System.next] at hs
      split at hs
      · next hready =>
        obtain rfl := Option.some.inj hs
        exact h.spawnThread hready created
      · cases hs
  | work i what =>
      simp only [System.next] at hs
      split at hs
      · next hrunning =>
        obtain rfl := Option.some.inj hs
        exact h.work hrunning what
      · cases hs
  | finish i =>
      simp only [System.next] at hs
      split at hs
      · next hrunning =>
        obtain rfl := Option.some.inj hs
        exact h.finish hrunning
      · cases hs
  | joinThread i joined =>
      simp only [System.next] at hs
      split at hs
      · obtain rfl := Option.some.inj hs
        exact h
      · next hspawned =>
        split at hs
        · split at hs
          · next hended =>
            obtain rfl := Option.some.inj hs
            exact h.publish hspawned hended
          · cases hs
        · obtain rfl := Option.some.inj hs
          exact h.notJoined

omit [DecidableEq ι] in
theorem inv_start : Inv summary (System.start (ι := ι)) := by
  refine ⟨fun i => ?_, fun phase => ⟨?_, ?_⟩⟩
  · exact ⟨nofun, nofun, List.Pairwise.nil, nofun, fun _ => ⟨rfl, rfl, rfl⟩, nofun, rfl⟩
  · intro c
    have hzero : (System.start (ι := ι)).total phase = .initial := rfl
    have hcounter : DiagnosticPhaseStats.initial.counter c = 0 := by cases c <;> rfl
    rw [hzero, hcounter]
    exact (Finset.sum_eq_zero fun i _ => rfl).symm
  · refine Or.inl ⟨?_, rfl⟩
    intro i e he
    cases he

/-- **Every state of a run.** -/
theorem System.Reachable.inv (h : System.Reachable summary s) : Inv summary s := by
  induction h with
  | refl => exact inv_start
  | tail _ hstep ih =>
      obtain ⟨l, hl⟩ := hstep
      exact ih.next hl

/-- **The statistics of a phase.** In every state of every run, each counter of the total is the sum, modulo
`2 ^ 64`, of what the calls of the workers amount to that have been joined, each worker once. The first
error is -1 if none of them has reported an error in the phase; else it is the first error of one of them,
with the epoch and the bytes that the worker had done before it, and none of them has reported an earlier
one. -/
theorem phase_statistics (h : System.Reachable summary s) (phase : DiagnosticPhase) :
    (∀ i, (s.worker i).diagnosticStatsPublished =
      ((s.worker i).joined && (s.worker i).diagnosticPhaseStats.isSome)) ∧
    (∀ c, (s.total phase).counter c = ∑ i, added (s.worker i).reported phase c) ∧
    ((∀ i, ∀ e ∈ (s.worker i).reported, ¬ e.IsError phase) ∧ (s.total phase).firstErrorUs = -1 ∨
      (∃ i, FirstError (s.worker i).reported phase (s.total phase)) ∧
        ∀ i, ∀ e ∈ (s.worker i).reported, e.IsError phase → (s.total phase).firstErrorUs ≤ e.time) :=
  ⟨fun i => (h.inv.worker i).published, (h.inv.total phase).counter, (h.inv.total phase).first⟩

end Inv

/-- Two workers; the one that is joined first has met its error later. -/
def twoLabels : List (Label Bool) :=
  [.initThread false true, .initThread true true, .spawnThread false true, .spawnThread true true,
    .tick 5, .work false (.firstError (some .runtimeCheck)), .applyDramFrequency, .tick 2,
    .work true (.operation (some .runtimeCheck) 64 0 3),
    .work false (.operation (some .runtimeCheck) 64 0 1),
    .finish true, .joinThread true true, .joinThread true true, .finish false, .joinThread false true]

theorem phase_statistics_two : ∃ s, System.run true System.start twoLabels = some s ∧
    (s.total .runtimeCheck).firstErrorUs = 5 ∧ (s.total .runtimeCheck).wordMismatches = 4 ∧
    (s.total .runtimeCheck).counter .blocks = ∑ i, added (s.worker i).reported .runtimeCheck .blocks := by
  have hrun : System.run true System.start twoLabels = some _ := rfl
  have hreachable : System.Reachable true _ := System.Reachable.run .refl hrun
  exact ⟨_, hrun, rfl, by decide, (phase_statistics hreachable .runtimeCheck).2.1 .blocks⟩

end StressAppTest.Diag.PhaseStats
