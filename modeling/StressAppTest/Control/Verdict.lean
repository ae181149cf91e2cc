import Mathlib.Data.BitVec
import StressAppTest.Control.Options

/-!
# The verdict of the program

What `main` makes of a run: every failed step and every worker without success is counted in
`statuscount_`, the errors of the workers are added up in `initialization_errorcount_` and `errorcount_`,
`PrintResults` prints PASS or FAIL, and the exit code comes from `status()` and from `errors()`, which
returns the low 32 bits of the sum.

* `runFillPass_spec`, `initializePages_spec`, `joinThreads_spec`, `run_spec`: what each step adds.
* `verdict_exact`: PASS and exit code 0 in terms of the workers that have run.
-/

namespace StressAppTest.Control.Verdict

/-- What becomes of a worker: whether its statistics were allocated, what `pthread_create` and
`pthread_join` return, and what `Work` leaves in `status_` and `errorcount_`. -/
structure Outcome where
  allocated : Bool
  spawned : Bool
  joined : Bool
  status : Bool
  errors : Word64

/-- `GetStatus`, after `SpawnThread` and `JoinThread`. -/
def Outcome.getStatus (w : Outcome) : Bool := w.spawned && w.joined && w.status

/-- `GetErrorCount` -/
def Outcome.getErrorCount (w : Outcome) : Word64 := if w.spawned then w.errors else 0

/-- The members of `Sat` that count. -/
structure Totals where
  statuscount : Nat
  errorcount : Word64
  initializationErrorcount : Word64

/-- What a run is given. A step that may fail says how many calls of `bad_status` it makes if it does. -/
structure Environment where
  prepareDramMapArgs : Bool
  satFactory : Bool
  parseArgs : Option Nat
  /-- `Initialize` before `InitializePages`. -/
  resources : Option Nat
  /-- `InitializePages` before the first pass. -/
  pages : Option Nat
  presetFill : Nat → Outcome
  presetReset : Bool
  initialFill : Nat → Outcome
  /-- `error_stop_requested()` before the check after the fill. -/
  stopAfterFill : Bool
  postFillCheck : Outcome
  /-- Every page has been tagged. -/
  tagged : Bool
  /-- `error_stop_requested()` at the start of `Run`. -/
  stopBeforeRun : Bool
  firstRequest : Bool
  /-- `InitThread` of the disk threads that are deleted after `SetParameters`. -/
  dropped : List Bool
  workers : List Outcome
  /-- No request for a frequency fails in the loop. -/
  requests : Bool
  /-- `error_stop_requested()` in `JoinThreads`. -/
  stopAtEnd : Bool
  finalCheck : Nat → Outcome

namespace Totals

def initial : Totals := ⟨0, 0, 0⟩

/-- `bad_status` -/
def badStatus (s : Totals) : Totals := { s with statuscount := s.statuscount + 1 }

def badStatusIf (s : Totals) (bad : Bool) : Totals := if bad then s.badStatus else s

/-- A step that fails after some calls of `bad_status`. -/
def fail (s : Totals) (n : Nat) : Totals := { s with statuscount := s.statuscount + n }

/-- `InitThread` of several workers. -/
def initThreads (s : Totals) (o : Options) (allocated : List Bool) : Totals :=
  allocated.foldl (fun s a => s.badStatusIf (o.value .diagPhaseSummary ≠ 0 && !a)) s

/-- `SpawnThread` of several workers. -/
def spawnThreads (s : Totals) (ws : List Outcome) : Totals :=
  ws.foldl (fun s w => s.badStatusIf !w.spawned) s

/-- `status()` and `errors()` -/
def errors (s : Totals) : Word32 := s.errorcount.setWidth 32

end Totals

variable (o : Options) (e : Environment)

/-! ## Initialization -/

/-- The loop of `RunFillPass` that joins the workers. -/
def fillJoin : List Outcome → Totals × Bool → Totals × Bool
  | [], r => r
  | w :: ws, (s, result) =>
      let s := { s with initializationErrorcount := s.initializationErrorcount + w.getErrorCount }
      if w.spawned && !w.getStatus then fillJoin ws (s.badStatus, false) else fillJoin ws (s, result)

/-- `Sat::RunFillPass`; `reset` says that all pages have been made Empty again. -/
def runFillPass (ws : List Outcome) (presetOnly reset : Bool) (s : Totals) : Totals × Bool :=
  let s := (s.initThreads o (ws.map (·.allocated))).spawnThreads ws
  let (s, result) := fillJoin ws (s, ws.all (·.spawned))
  if presetOnly && result && !reset then (s.badStatus, false) else (s, result)

/-- The fill workers of a pass. -/
def fillWorkers (f : Nat → Outcome) : List Outcome :=
  (List.range (o.value .fillThreads).toNat).map f

/-- The check after the fill in `Sat::InitializePages` -/
def verifyAfterFill (w : Outcome) (s : Totals) : Totals × Bool :=
  let s := s.initThreads o [w.allocated]
  if w.spawned then
    let s := { s with initializationErrorcount := s.initializationErrorcount + w.getErrorCount }
    if w.getStatus then (s, true) else (s.badStatus, false)
  else (s.badStatus, false)

/-- The next step, if the last one has succeeded. -/
def andThen (r : Totals × Bool) (next : Totals → Totals × Bool) : Totals × Bool :=
  if r.2 then next r.1 else r

/-- `Sat::InitializePages` -/
def initializePages (s : Totals) : Totals × Bool :=
  match e.pages with
  | some n => (s.fail n, false)
  | none =>
      andThen (if o.fillPreset ≠ .none then
        runFillPass o (fillWorkers o e.presetFill) true e.presetReset s else (s, true)) fun s =>
      andThen (runFillPass o (fillWorkers o e.initialFill) false true s) fun s =>
      andThen (if o.value .verifyAfterFill ≠ 0 ∧ e.stopAfterFill = false then
        verifyAfterFill o e.postFillCheck s else (s, true)) fun s =>
      -- a page that has not been tagged is no bad status
      (s, e.tagged)

/-- `Sat::Initialize` -/
def satInitialize (s : Totals) : Totals × Bool :=
  match e.resources with
  | some n => (s.fail n, false)
  | none => if o.value .monitorMode ≠ 0 then (s, true) else initializePages o e s

/-! ## Run -/

/-- `GetTotalErrorCount` -/
def getTotalErrorCount (ws : List Outcome) (s : Totals) : Word64 :=
  ws.foldl (fun errors w => errors + w.getErrorCount) s.initializationErrorcount

/-- The workers that `JoinThreads` creates. -/
def finalWorkers : List Outcome :=
  if o.value .monitorMode = 0 ∧ o.value .skipFinalCheck = 0 ∧ e.stopAtEnd = false then
    (List.range (if o.value .finalCheckThreadsExplicit ≠ 0 then o.value .finalCheckThreads
      else o.value .fillThreads).toNat).map e.finalCheck
  else []

/-- The last loop of `JoinThreads`, over the workers that have been spawned. -/
def reapChecks (ws : List Outcome) (s : Totals) : Totals :=
  (ws.filter (·.spawned)).foldl (fun s w =>
    let s := s.badStatusIf !w.getStatus
    { s with errorcount := s.errorcount + w.getErrorCount }) s

/-- `Sat::JoinThreads` -/
def joinThreads (s : Totals) : Totals :=
  let final := finalWorkers o e
  let s := (s.initThreads o (final.map (·.allocated))).spawnThreads final
  let s := { s with errorcount := getTotalErrorCount e.workers s }
  reapChecks final (e.workers.foldl (fun s w => s.badStatusIf !w.getStatus) s)

/-- `Sat::Run` -/
def run (s : Totals) : Totals × Bool :=
  if e.stopBeforeRun then ({ s with errorcount := getTotalErrorCount [] s }, true)
  else if o.dramFrequencies ≠ [] ∧ e.firstRequest = false then (s.badStatus, false)
  else
    let s := (s.initThreads o (e.dropped ++ e.workers.map (·.allocated))).spawnThreads e.workers
    if e.workers.all (·.spawned) then
      if e.requests then (joinThreads o e s, true) else (joinThreads o e s.badStatus, false)
    else (joinThreads o e s, false)

/-! ## Main -/

/-- What `main` leaves: the exit code, and what `PrintResults` returns, if it is called. -/
structure Ending where
  retval : Nat
  printResults : Option Bool

/-- The calls of `ParseArgs`, `Initialize` and `Run` in `main`. -/
def mainTotals : Totals :=
  match e.parseArgs with
  | some n => (Totals.initial.fail n).badStatus
  | none =>
      let r := andThen (satInitialize o e .initial) (run o e)
      if r.2 then r.1 else r.1.badStatus

/-- `PrintResults` -/
def printResults (s : Totals) : Bool :=
  if s.statuscount ≠ 0 then false else if s.errorcount ≠ 0 then false else true

/-- `main` -/
def main_ : Ending :=
  if e.prepareDramMapArgs = false then ⟨1, none⟩
  else if e.satFactory = false then ⟨255, none⟩
  else
    let s := mainTotals o e
    ⟨if s.statuscount ≠ 0 then 1 else if s.errors ≠ 0 then 1 else 0, some (printResults s)⟩

/-! ## What the steps add -/

/-- A step calls `bad_status` if and only if not `ok`, and adds errors. -/
structure Adds (s s' : Totals) (ok : Prop) (errors initialization : Word64) : Prop where
  status : s'.statuscount = 0 ↔ s.statuscount = 0 ∧ ok
  errorcount : s'.errorcount = s.errorcount + errors
  initialization : s'.initializationErrorcount = s.initializationErrorcount + initialization

section Adds

variable {s s' s'' : Totals} {ok ok' : Prop} {errors errors' init init' : Word64}

theorem adds_refl (s : Totals) : Adds s s True 0 0 :=
  ⟨by simp, (add_zero _).symm, (add_zero _).symm⟩

theorem Adds.trans (h : Adds s s' ok errors init) (h' : Adds s' s'' ok' errors' init') :
    Adds s s'' (ok ∧ ok') (errors + errors') (init + init') :=
  ⟨by rw [h'.status, h.status, and_assoc], by rw [h'.errorcount, h.errorcount, add_assoc],
    by rw [h'.initialization, h.initialization, add_assoc]⟩

theorem Adds.congr (h : Adds s s' ok errors init) (hok : ok ↔ ok') (herrors : errors = errors')
    (hinit : init = init') : Adds s s' ok' errors' init' := by
  subst herrors hinit
  exact ⟨h.status.trans (and_congr_right fun _ => hok), h.errorcount, h.initialization⟩

/-- Two steps that add no errors. -/
theorem Adds.then (h : Adds s s' ok 0 0) (h' : Adds s' s'' ok' 0 0) : Adds s s'' (ok ∧ ok') 0 0 :=
  (h.trans h').congr Iff.rfl (add_zero _) (add_zero _)

theorem adds_badStatus (s : Totals) : Adds s s.badStatus False 0 0 :=
  ⟨by simp [Totals.badStatus], (add_zero _).symm, (add_zero _).symm⟩

theorem adds_badStatusIf (s : Totals) (bad : Bool) : Adds s (s.badStatusIf bad) (bad = false) 0 0 := by
  cases bad with
  | true => exact (adds_badStatus s).congr (by simp) rfl rfl
  | false => exact (adds_refl s).congr (by simp) rfl rfl

end Adds

/-- A loop of which each pass calls `bad_status` or not. -/
theorem adds_foldl {α : Type} (bad : α → Bool) (l : List α) (s : Totals) :
    Adds s (l.foldl (fun s a => s.badStatusIf (bad a)) s) (∀ a ∈ l, bad a = false) 0 0 := by
  induction l generalizing s with
  | nil => exact (adds_refl s).congr (by simp) rfl rfl
  | cons a l ih =>
      rw [List.foldl_cons]
      exact ((adds_badStatusIf s (bad a)).then (ih _)).congr (by simp) rfl rfl

theorem adds_initThreads (s : Totals) (allocated : List Bool) :
    Adds s (s.initThreads o allocated) (∀ a ∈ allocated, o.value .diagPhaseSummary ≠ 0 → a = true) 0 0 :=
  (adds_foldl _ allocated s).congr (by simp) rfl rfl

theorem adds_spawnThreads (s : Totals) (ws : List Outcome) :
    Adds s (s.spawnThreads ws) (∀ w ∈ ws, w.spawned = true) 0 0 :=
  (adds_foldl _ ws s).congr (by simp) rfl rfl

/-! ## Workers -/

/-- A worker that has succeeded, and whose statistics were allocated if they are wanted. -/
def Outcome.Ok (w : Outcome) : Prop :=
  (o.value .diagPhaseSummary ≠ 0 → w.allocated = true) ∧ w.getStatus = true

/-- The errors of several workers. -/
def errorsOf (ws : List Outcome) : Word64 := (ws.map Outcome.getErrorCount).sum

theorem errorsOf_cons (w : Outcome) (ws : List Outcome) :
    errorsOf (w :: ws) = w.getErrorCount + errorsOf ws := by
  rw [errorsOf, List.map_cons, List.sum_cons, errorsOf]

theorem errorsOf_append (ws ws' : List Outcome) : errorsOf (ws ++ ws') = errorsOf ws + errorsOf ws' := by
  rw [errorsOf, List.map_append, List.sum_append, errorsOf, errorsOf]

theorem Outcome.spawned_of_getStatus {w : Outcome} (h : w.getStatus = true) : w.spawned = true := by
  unfold Outcome.getStatus at h
  simp only [Bool.and_eq_true] at h
  exact h.1.1

theorem adds_fillJoin (ws : List Outcome) (s : Totals) (result : Bool) :
    Adds s (fillJoin ws (s, result)).1 (∀ w ∈ ws, w.spawned = true → w.getStatus = true) 0 (errorsOf ws) ∧
      ((fillJoin ws (s, result)).2 = true ↔
        result = true ∧ ∀ w ∈ ws, w.spawned = true → w.getStatus = true) := by
  induction ws generalizing s result with
  | nil => exact ⟨(adds_refl s).congr (by simp) rfl rfl, by simp [fillJoin]⟩
  | cons w ws ih =>
      have hcount : Adds s
          { s with initializationErrorcount := s.initializationErrorcount + w.getErrorCount } True 0
          w.getErrorCount := ⟨by simp, (add_zero _).symm, rfl⟩
      unfold fillJoin
      dsimp only
      split
      · next hbad =>
        have hfailed : ¬ (w.spawned = true → w.getStatus = true) := by simpa using hbad
        obtain ⟨hadds, hresult⟩ := ih
          ({ s with initializationErrorcount := s.initializationErrorcount + w.getErrorCount }).badStatus
          false
        refine ⟨((hcount.trans (adds_badStatus _)).trans hadds).congr ?_ ?_ ?_, ?_⟩
        · simp [hfailed]
        · simp
        · rw [errorsOf_cons, add_zero]
        · rw [hresult]
          simp [hfailed]
      · next hgood =>
        have hok : w.spawned = true → w.getStatus = true := by simpa using hgood
        obtain ⟨hadds, hresult⟩ := ih
          { s with initializationErrorcount := s.initializationErrorcount + w.getErrorCount } result
        refine ⟨(hcount.trans hadds).congr ?_ ?_ ?_, ?_⟩
        · rw [true_and, List.forall_mem_cons, and_iff_right hok]
        · simp
        · rw [errorsOf_cons]
        · rw [hresult, List.forall_mem_cons, and_iff_right hok]

/-- **A pass over all pages.** -/
theorem runFillPass_spec (ws : List Outcome) (presetOnly reset : Bool) (s : Totals) :
    Adds s (runFillPass o ws presetOnly reset s).1
        ((∀ w ∈ ws, w.Ok o) ∧ ((∀ w ∈ ws, w.getStatus = true) → presetOnly = true → reset = true)) 0
        (errorsOf ws) ∧
      ((runFillPass o ws presetOnly reset s).2 = true ↔
        (∀ w ∈ ws, w.getStatus = true) ∧ (presetOnly = true → reset = true)) := by
  have hinit := adds_initThreads o s (ws.map (·.allocated))
  have hspawn := adds_spawnThreads (s.initThreads o (ws.map (·.allocated))) ws
  obtain ⟨hjoin, hresult⟩ := adds_fillJoin ws
    ((s.initThreads o (ws.map (·.allocated))).spawnThreads ws) (ws.all (·.spawned))
  have hstatus : ((∀ w ∈ ws, w.spawned = true) ∧ ∀ w ∈ ws, w.spawned = true → w.getStatus = true) ↔
      ∀ w ∈ ws, w.getStatus = true := by
    constructor
    · rintro ⟨hs, hg⟩ w hw
      exact hg w hw (hs w hw)
    · intro hg
      exact ⟨fun w hw => Outcome.spawned_of_getStatus (hg w hw), fun w hw _ => hg w hw⟩
  have hall : Adds s (fillJoin ws ((s.initThreads o (ws.map (·.allocated))).spawnThreads ws,
      ws.all (·.spawned))).1 (∀ w ∈ ws, w.Ok o) 0 (errorsOf ws) := by
    refine ((hinit.then hspawn).trans hjoin).congr ?_ (by simp) (by simp)
    rw [and_assoc, hstatus]
    simp only [List.mem_map, forall_exists_index, and_imp, forall_apply_eq_imp_iff₂, Outcome.Ok]
    constructor
    · rintro ⟨ha, hg⟩ w hw
      exact ⟨ha w hw, hg w hw⟩
    · intro h
      exact ⟨fun w hw => (h w hw).1, fun w hw => (h w hw).2⟩
  have hdone : (fillJoin ws ((s.initThreads o (ws.map (·.allocated))).spawnThreads ws,
      ws.all (·.spawned))).2 = true ↔ ∀ w ∈ ws, w.getStatus = true := by
    rw [hresult, ← hstatus]
    simp
  unfold runFillPass
  dsimp only
  split
  · next hreset =>
    simp only [Bool.and_eq_true, Bool.not_eq_true'] at hreset
    obtain ⟨⟨hpreset, hgood⟩, hno⟩ := hreset
    have hg := hdone.mp hgood
    refine ⟨(hall.trans (adds_badStatus _)).congr ?_ (by simp) (by simp), ?_⟩
    · simp only [and_false, false_iff, not_and, not_forall]
      intro _
      exact ⟨hg, hpreset, by simp [hno]⟩
    · simp [hpreset, hno]
  · next hreset =>
    refine ⟨hall.congr ?_ rfl rfl, ?_⟩
    · refine (and_iff_left fun hg hpreset => ?_).symm
      by_contra hno
      exact hreset (by simp [hpreset, hdone.mpr hg, hno])
    · rw [hdone]
      refine (and_iff_left_of_imp fun hg hpreset => ?_).symm
      by_contra hno
      exact hreset (by simp [hpreset, hdone.mpr hg, hno])

theorem verifyAfterFill_spec (w : Outcome) (s : Totals) :
    Adds s (verifyAfterFill o w s).1 (w.Ok o) 0 w.getErrorCount ∧
      ((verifyAfterFill o w s).2 = true ↔ w.getStatus = true) := by
  have hinit := adds_initThreads o s [w.allocated]
  have hcount (s : Totals) : Adds s
      { s with initializationErrorcount := s.initializationErrorcount + w.getErrorCount } True 0
      w.getErrorCount := ⟨by simp, (add_zero _).symm, rfl⟩
  unfold verifyAfterFill
  dsimp only
  split
  · split
    · next hstatus =>
      refine ⟨(hinit.trans (hcount _)).congr ?_ (by simp) (by simp), by simp [hstatus]⟩
      simp [Outcome.Ok, hstatus]
    · next hstatus =>
      refine ⟨((hinit.trans (hcount _)).trans (adds_badStatus _)).congr ?_ (by simp) (by simp),
        by simp [hstatus]⟩
      simp [Outcome.Ok, hstatus]
  · next hspawned =>
    have hstatus : ¬ w.getStatus = true := fun h => hspawned (Outcome.spawned_of_getStatus h)
    refine ⟨(hinit.trans (adds_badStatus _)).congr ?_ (by simp) ?_, by simp [hstatus]⟩
    · simp [Outcome.Ok, hstatus]
    · simp [Outcome.getErrorCount, hspawned]

/-! ## Initialization and run -/

/-- A function succeeds without a bad status if and only if `ok`, and then it has added errors. -/
structure Ends (s : Totals) (r : Totals × Bool) (ok : Prop) (init : Word64) : Prop where
  good : r.1.statuscount = 0 ∧ r.2 = true ↔ s.statuscount = 0 ∧ ok
  initialization : r.1.statuscount = 0 → r.2 = true →
    r.1.initializationErrorcount = s.initializationErrorcount + init

section Ends

variable {s : Totals} {r : Totals × Bool} {ok ok' : Prop} {init init' : Word64}

theorem Ends.congr (h : Ends s r ok init) (hok : ok ↔ ok') (hinit : ok' → init = init') :
    Ends s r ok' init' := by
  refine ⟨h.good.trans (and_congr_right fun _ => hok), fun hstatus hresult => ?_⟩
  rw [h.initialization hstatus hresult, hinit (hok.mp (h.good.mp ⟨hstatus, hresult⟩).2)]

theorem ends_pure (s : Totals) (b : Bool) : Ends s (s, b) (b = true) 0 :=
  ⟨Iff.rfl, fun _ _ => (add_zero _).symm⟩

theorem Ends.andThen {next : Totals → Totals × Bool} (h : Ends s r ok init)
    (hnext : ∀ s, Ends s (next s) ok' init') : Ends s (andThen r next) (ok ∧ ok') (init + init') := by
  unfold Verdict.andThen
  split
  · next hresult =>
    have hfirst : r.1.statuscount = 0 ↔ s.statuscount = 0 ∧ ok :=
      (and_iff_left hresult).symm.trans h.good
    refine ⟨?_, ?_⟩
    · rw [(hnext r.1).good, hfirst, and_assoc]
    · intro hstatus hdone
      have hclean := ((hnext r.1).good.mp ⟨hstatus, hdone⟩).1
      rw [(hnext r.1).initialization hstatus hdone, h.initialization hclean hresult, add_assoc]
  · next hresult =>
    refine ⟨?_, fun _ hdone => absurd hdone hresult⟩
    constructor
    · rintro ⟨-, hdone⟩
      exact absurd hdone hresult
    · rintro ⟨hstatus, hok, -⟩
      exact absurd (h.good.mpr ⟨hstatus, hok⟩).2 hresult

end Ends

theorem ends_runFillPass (ws : List Outcome) (presetOnly reset : Bool) (s : Totals) :
    Ends s (runFillPass o ws presetOnly reset s) ((∀ w ∈ ws, w.Ok o) ∧ (presetOnly = true → reset = true))
      (errorsOf ws) := by
  obtain ⟨hadds, hresult⟩ := runFillPass_spec o ws presetOnly reset s
  refine ⟨?_, fun _ _ => hadds.initialization⟩
  rw [hadds.status, hresult]
  constructor
  · rintro ⟨⟨hstatus, hok, -⟩, -, hreset⟩
    exact ⟨hstatus, hok, hreset⟩
  · rintro ⟨hstatus, hok, hreset⟩
    exact ⟨⟨hstatus, hok, fun _ => hreset⟩, fun w hw => (hok w hw).2, hreset⟩

theorem ends_verifyAfterFill (w : Outcome) (s : Totals) :
    Ends s (verifyAfterFill o w s) (w.Ok o) w.getErrorCount := by
  obtain ⟨hadds, hresult⟩ := verifyAfterFill_spec o w s
  refine ⟨?_, fun _ _ => hadds.initialization⟩
  rw [hadds.status, hresult]
  exact ⟨And.left, fun h => ⟨h, h.2.2⟩⟩

/-- The workers of `InitializePages`. -/
def pageWorkers : List Outcome :=
  (if o.fillPreset ≠ .none then fillWorkers o e.presetFill else []) ++
    fillWorkers o e.initialFill ++
    if o.value .verifyAfterFill ≠ 0 ∧ e.stopAfterFill = false then [e.postFillCheck] else []

/-- **The pages.** -/
theorem initializePages_spec (s : Totals) :
    Ends s (initializePages o e s) (e.pages = none ∧ (∀ w ∈ pageWorkers o e, w.Ok o) ∧
      (o.fillPreset ≠ .none → e.presetReset = true) ∧ e.tagged = true) (errorsOf (pageWorkers o e)) := by
  unfold initializePages
  cases hpages : e.pages with
  | some n =>
      refine ⟨?_, fun _ hdone => absurd hdone Bool.false_ne_true⟩
      simp
  | none =>
      have hpreset (s : Totals) : Ends s (if o.fillPreset ≠ .none then
          runFillPass o (fillWorkers o e.presetFill) true e.presetReset s else (s, true))
          ((∀ w ∈ (if o.fillPreset ≠ .none then fillWorkers o e.presetFill else []), w.Ok o) ∧
            (o.fillPreset ≠ .none → e.presetReset = true))
          (errorsOf (if o.fillPreset ≠ .none then fillWorkers o e.presetFill else [])) := by
        by_cases hp : o.fillPreset ≠ .none
        · rw [if_pos hp, if_pos hp]
          exact (ends_runFillPass o _ true e.presetReset s).congr (by simp [hp]) fun _ => rfl
        · rw [if_neg hp, if_neg hp]
          exact (ends_pure s true).congr (by simp [hp]) fun _ => rfl
      have hverify (s : Totals) : Ends s (if o.value .verifyAfterFill ≠ 0 ∧ e.stopAfterFill = false then
          verifyAfterFill o e.postFillCheck s else (s, true))
          (∀ w ∈ (if o.value .verifyAfterFill ≠ 0 ∧ e.stopAfterFill = false then [e.postFillCheck] else []),
            w.Ok o)
          (errorsOf (if o.value .verifyAfterFill ≠ 0 ∧ e.stopAfterFill = false then [e.postFillCheck]
            else [])) := by
        by_cases hv : o.value .verifyAfterFill ≠ 0 ∧ e.stopAfterFill = false
        · rw [if_pos hv, if_pos hv]
          exact (ends_verifyAfterFill o e.postFillCheck s).congr (by simp)
            fun _ => by simp [errorsOf]
        · rw [if_neg hv, if_neg hv]
          exact (ends_pure s true).congr (by simp) fun _ => rfl
      refine ((hpreset s).andThen fun s => (ends_runFillPass o _ false true s).andThen fun s =>
        (hverify s).andThen fun s => ends_pure s e.tagged).congr ?_ fun _ => ?_
      · simp only [pageWorkers, List.forall_mem_append]
        tauto
      · rw [pageWorkers, errorsOf_append, errorsOf_append]
        simp only [add_zero, add_assoc]

theorem adds_reapChecks (ws : List Outcome) (s : Totals) :
    Adds s (reapChecks ws s) (∀ w ∈ ws, w.spawned = true → w.getStatus = true) (errorsOf ws) 0 := by
  unfold reapChecks
  induction ws generalizing s with
  | nil => exact (adds_refl s).congr (by simp) rfl rfl
  | cons w ws ih =>
      by_cases hspawned : w.spawned = true
      · rw [List.filter_cons_of_pos hspawned, List.foldl_cons]
        have hcount (s : Totals) : Adds s { s with errorcount := s.errorcount + w.getErrorCount } True
            w.getErrorCount 0 := ⟨by simp, rfl, (add_zero _).symm⟩
        refine (((adds_badStatusIf s _).trans (hcount _)).trans (ih _)).congr ?_ ?_ (by simp)
        · simp [hspawned]
        · rw [errorsOf_cons, zero_add]
      · rw [List.filter_cons_of_neg hspawned]
        refine (ih s).congr ?_ ?_ rfl
        · simp [hspawned]
        · rw [errorsOf_cons, Outcome.getErrorCount, if_neg hspawned, zero_add]

theorem getTotalErrorCount_eq (ws : List Outcome) (s : Totals) :
    getTotalErrorCount ws s = s.initializationErrorcount + errorsOf ws := by
  have hfold (init : Word64) : ws.foldl (fun errors w => errors + w.getErrorCount) init =
      init + errorsOf ws := by
    induction ws generalizing init with
    | nil => exact (add_zero _).symm
    | cons w ws ih => rw [List.foldl_cons, ih, errorsOf_cons, add_assoc]
  exact hfold _

/-- **`JoinThreads`.** -/
theorem joinThreads_spec (s : Totals) :
    ((joinThreads o e s).statuscount = 0 ↔ s.statuscount = 0 ∧ (∀ w ∈ e.workers, w.getStatus = true) ∧
      ∀ w ∈ finalWorkers o e, w.Ok o) ∧
    (joinThreads o e s).errorcount =
      s.initializationErrorcount + errorsOf (e.workers ++ finalWorkers o e) := by
  unfold joinThreads
  dsimp only
  generalize finalWorkers o e = final
  have hinit := adds_initThreads o s (final.map (·.allocated))
  have hstart := hinit.then (adds_spawnThreads (s.initThreads o (final.map (·.allocated))) final)
  generalize hs₁ : (s.initThreads o (final.map (·.allocated))).spawnThreads final = s₁ at hstart
  have hworkers := adds_foldl (fun w : Outcome => !w.getStatus) e.workers
    { s₁ with errorcount := getTotalErrorCount e.workers s₁ }
  have hreap := hworkers.trans (adds_reapChecks final _)
  refine ⟨?_, ?_⟩
  · rw [hreap.status]
    change s₁.statuscount = 0 ∧ _ ↔ _
    rw [hstart.status]
    simp only [List.mem_map, forall_exists_index, and_imp, forall_apply_eq_imp_iff₂, Outcome.Ok,
      Bool.not_eq_false']
    constructor
    · rintro ⟨⟨hstatus, halloc, hspawn⟩, hw, hf⟩
      exact ⟨hstatus, hw, fun w hm => ⟨halloc w hm, hf w hm (hspawn w hm)⟩⟩
    · rintro ⟨hstatus, hw, hf⟩
      exact ⟨⟨hstatus, fun w hm => (hf w hm).1, fun w hm => Outcome.spawned_of_getStatus (hf w hm).2⟩, hw,
        fun w hm _ => (hf w hm).2⟩
  · rw [hreap.errorcount]
    change getTotalErrorCount e.workers s₁ + _ = _
    rw [getTotalErrorCount_eq, hstart.initialization, errorsOf_append, add_zero, zero_add, add_assoc]

/-- The workers of `Run`. -/
def runWorkers : List Outcome := if e.stopBeforeRun then [] else e.workers ++ finalWorkers o e

/-- What has to go well in `Run` besides the workers. -/
structure RunOk : Prop where
  firstRequest : o.dramFrequencies ≠ [] → e.firstRequest = true
  dropped : o.value .diagPhaseSummary ≠ 0 → ∀ a ∈ e.dropped, a = true
  requests : e.requests = true

/-- **`Run`.** -/
theorem run_spec (s : Totals) :
    ((run o e s).1.statuscount = 0 ∧ (run o e s).2 = true ↔ s.statuscount = 0 ∧
      (e.stopBeforeRun = false → RunOk o e) ∧ ∀ w ∈ runWorkers o e, w.Ok o) ∧
    ((run o e s).1.statuscount = 0 → (run o e s).2 = true →
      (run o e s).1.errorcount = s.initializationErrorcount + errorsOf (runWorkers o e)) := by
  unfold run runWorkers
  cases hstop : e.stopBeforeRun with
  | true =>
      refine ⟨?_, fun _ _ => getTotalErrorCount_eq [] s⟩
      simp
  | false =>
      simp only [Bool.false_eq_true, if_false, forall_const]
      by_cases hrequest : o.dramFrequencies ≠ [] ∧ e.firstRequest = false
      · rw [if_pos hrequest]
        refine ⟨?_, fun _ hdone => absurd hdone Bool.false_ne_true⟩
        constructor
        · rintro ⟨-, hdone⟩
          exact absurd hdone Bool.false_ne_true
        · rintro ⟨-, hok, -⟩
          exact absurd (hrequest.2.symm.trans (hok.firstRequest hrequest.1)) Bool.false_ne_true
      · rw [if_neg hrequest]
        have hfirst : o.dramFrequencies ≠ [] → e.firstRequest = true := by
          intro hne
          by_contra hno
          exact hrequest ⟨hne, by simpa using hno⟩
        have hinit := adds_initThreads o s (e.dropped ++ e.workers.map (·.allocated))
        have hstart := hinit.then (adds_spawnThreads
          (s.initThreads o (e.dropped ++ e.workers.map (·.allocated))) e.workers)
        generalize hs₁ : (s.initThreads o (e.dropped ++ e.workers.map (·.allocated))).spawnThreads
          e.workers = s₁ at hstart
        by_cases hspawned : e.workers.all (·.spawned) = true
        · rw [if_pos hspawned]
          cases hreq : e.requests with
          | false =>
              refine ⟨?_, fun _ hdone => absurd hdone Bool.false_ne_true⟩
              constructor
              · rintro ⟨-, hdone⟩
                exact absurd hdone Bool.false_ne_true
              · rintro ⟨-, hok, -⟩
                exact absurd (hreq.symm.trans hok.requests) Bool.false_ne_true
          | true =>
              obtain ⟨hjoin, herrors⟩ := joinThreads_spec o e s₁
              simp only [if_true]
              refine ⟨?_, fun _ _ => ?_⟩
              · rw [and_true, hjoin, hstart.status]
                simp only [List.forall_mem_append, List.mem_map, forall_exists_index, and_imp,
                  forall_apply_eq_imp_iff₂, Outcome.Ok]
                constructor
                · rintro ⟨⟨hstatus, ⟨hdropped, halloc⟩, -⟩, hw, hf⟩
                  exact ⟨hstatus, ⟨hfirst, fun hsummary a ha => hdropped a ha hsummary, hreq⟩,
                    fun w hm => ⟨halloc w hm, hw w hm⟩, hf⟩
                · rintro ⟨hstatus, hok, hw, hf⟩
                  exact ⟨⟨hstatus, ⟨fun a ha hsummary => hok.dropped hsummary a ha,
                    fun w hm => (hw w hm).1⟩, fun w hm => Outcome.spawned_of_getStatus (hw w hm).2⟩,
                    fun w hm => (hw w hm).2, hf⟩
              · rw [herrors, hstart.initialization, add_zero]
        · rw [if_neg hspawned]
          refine ⟨?_, fun _ hdone => absurd hdone Bool.false_ne_true⟩
          constructor
          · rintro ⟨-, hdone⟩
            exact absurd hdone Bool.false_ne_true
          · rintro ⟨-, -, hw⟩
            refine absurd (List.all_eq_true.mpr fun w hm => ?_) hspawned
            exact Outcome.spawned_of_getStatus (hw w (List.mem_append_left _ hm)).2

/-! ## Main -/

/-- All workers of a run that goes well. -/
def allWorkers : List Outcome :=
  (if o.value .monitorMode ≠ 0 then [] else pageWorkers o e) ++ runWorkers o e

/-- Every step besides the workers succeeds. -/
structure StepsOk : Prop where
  parseArgs : e.parseArgs = none
  resources : e.resources = none
  pages : o.value .monitorMode = 0 → e.pages = none
  presetReset : o.value .monitorMode = 0 → o.fillPreset ≠ .none → e.presetReset = true
  tagged : o.value .monitorMode = 0 → e.tagged = true
  run : e.stopBeforeRun = false → RunOk o e

theorem satInitialize_spec (s : Totals) :
    Ends s (satInitialize o e s)
      (e.resources = none ∧ (o.value .monitorMode = 0 → e.pages = none ∧
        (o.fillPreset ≠ .none → e.presetReset = true) ∧ e.tagged = true) ∧
        ∀ w ∈ (if o.value .monitorMode ≠ 0 then [] else pageWorkers o e), w.Ok o)
      (errorsOf (if o.value .monitorMode ≠ 0 then [] else pageWorkers o e)) := by
  unfold satInitialize
  cases hresources : e.resources with
  | some n =>
      refine ⟨?_, fun _ hdone => absurd hdone Bool.false_ne_true⟩
      simp
  | none =>
      by_cases hmonitor : o.value .monitorMode ≠ 0
      · rw [if_pos hmonitor, if_pos hmonitor]
        exact (ends_pure s true).congr (by simp [hmonitor]) fun _ => rfl
      · rw [if_neg hmonitor, if_neg hmonitor]
        refine (initializePages_spec o e s).congr ?_ fun _ => rfl
        have hzero : o.value .monitorMode = 0 := not_not.mp hmonitor
        simp only [hzero, true_and, forall_const]
        tauto

theorem mainTotals_spec :
    ((mainTotals o e).statuscount = 0 ↔ StepsOk o e ∧ ∀ w ∈ allWorkers o e, w.Ok o) ∧
      ((mainTotals o e).statuscount = 0 → (mainTotals o e).errorcount = errorsOf (allWorkers o e)) := by
  unfold mainTotals
  cases hparse : e.parseArgs with
  | some n =>
      have hbad : ¬ ((Totals.initial.fail n).badStatus).statuscount = 0 := Nat.succ_ne_zero _
      refine ⟨iff_of_false hbad ?_, fun h => absurd h hbad⟩
      rintro ⟨hok, -⟩
      exact absurd (hparse.symm.trans hok.parseArgs) nofun
  | none =>
      have hfirst := satInitialize_spec o e .initial
      generalize satInitialize o e .initial = r at hfirst
      obtain ⟨s, done⟩ := r
      have hgood : (s.statuscount = 0 ∧ done = true ↔ _) := hfirst.good
      have hsplit : StepsOk o e ∧ (∀ w ∈ allWorkers o e, w.Ok o) ↔
          (s.statuscount = 0 ∧ done = true) ∧ (e.stopBeforeRun = false → RunOk o e) ∧
            ∀ w ∈ runWorkers o e, w.Ok o := by
        rw [hgood, allWorkers, List.forall_mem_append]
        constructor
        · rintro ⟨hok, hpages, hrun⟩
          exact ⟨⟨rfl, hok.resources, fun hm => ⟨hok.pages hm, hok.presetReset hm, hok.tagged hm⟩, hpages⟩,
            hok.run, hrun⟩
        · rintro ⟨⟨-, hresources, hmonitor, hpages⟩, hok, hrun⟩
          exact ⟨⟨hparse, hresources, fun hm => (hmonitor hm).1, fun hm => (hmonitor hm).2.1,
            fun hm => (hmonitor hm).2.2, hok⟩, hpages, hrun⟩
      rw [hsplit]
      cases done with
      | false =>
          have hbad : ¬ s.badStatus.statuscount = 0 := Nat.succ_ne_zero _
          refine ⟨iff_of_false hbad ?_, fun h => absurd h hbad⟩
          rintro ⟨⟨-, hdone⟩, -⟩
          exact absurd hdone Bool.false_ne_true
      | true =>
          obtain ⟨hrun, herrors⟩ := run_spec o e s
          simp only [andThen, if_true, and_true]
          generalize run o e s = r at hrun herrors
          obtain ⟨s', done⟩ := r
          cases done with
          | false =>
              have hbad : ¬ s'.badStatus.statuscount = 0 := Nat.succ_ne_zero _
              refine ⟨iff_of_false hbad fun h => ?_, fun h => absurd h hbad⟩
              exact absurd (hrun.mpr h).2 Bool.false_ne_true
          | true =>
              rw [and_iff_left rfl] at hrun
              refine ⟨hrun, fun hstatus => ?_⟩
              have hclean := (hrun.mp hstatus).1
              rw [if_pos rfl]
              rw [herrors hstatus rfl, allWorkers, errorsOf_append]
              change s.initializationErrorcount + _ = _
              rw [hfirst.initialization hclean rfl]
              exact congrArg (· + _) (zero_add _)

/-- **The verdict.** `PrintResults` prints PASS if and only if every step and every worker that the run comes
to has succeeded and the errors of all these workers, each counted once, add up to 0 modulo `2 ^ 64`. The
exit code is 0 if and only if the same holds with the sum modulo `2 ^ 32`. -/
theorem verdict_exact (o : Options) (e : Environment) :
    ((main_ o e).printResults = some true ↔ e.prepareDramMapArgs = true ∧ e.satFactory = true ∧
      StepsOk o e ∧ (∀ w ∈ allWorkers o e, w.Ok o) ∧ errorsOf (allWorkers o e) = 0) ∧
    ((main_ o e).retval = 0 ↔ e.prepareDramMapArgs = true ∧ e.satFactory = true ∧
      StepsOk o e ∧ (∀ w ∈ allWorkers o e, w.Ok o) ∧ (errorsOf (allWorkers o e)).setWidth 32 = 0) := by
  obtain ⟨hstatus, herrors⟩ := mainTotals_spec o e
  unfold main_
  cases hprepare : e.prepareDramMapArgs with
  | false => simp
  | true =>
      cases hfactory : e.satFactory with
      | false => simp
      | true =>
          simp only [Bool.true_eq_false, if_false, true_and]
          by_cases hzero : (mainTotals o e).statuscount = 0
          · have hall := hstatus.mp hzero
            have hcount := herrors hzero
            simp only [printResults, Totals.errors, hzero, hcount, hall.1, ne_eq, not_true_eq_false,
              if_false, true_and]
            refine ⟨?_, ?_⟩
            · rw [and_iff_right hall.2]
              simp
            · rw [and_iff_right hall.2]
              simp
          · have hall : ¬ (StepsOk o e ∧ ∀ w ∈ allWorkers o e, w.Ok o) := fun h => hzero (hstatus.mpr h)
            rw [if_pos hzero]
            refine ⟨?_, ?_⟩
            · rw [printResults, if_pos hzero]
              refine iff_of_false (by simp) ?_
              rintro ⟨hok, hw, -⟩
              exact hall ⟨hok, hw⟩
            · refine iff_of_false Nat.one_ne_zero ?_
              rintro ⟨hok, hw, -⟩
              exact hall ⟨hok, hw⟩

end StressAppTest.Control.Verdict
