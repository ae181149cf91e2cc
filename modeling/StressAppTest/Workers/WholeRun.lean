import StressAppTest.FineLock.Refinement
import StressAppTest.OneLock.Refinement
import StressAppTest.Workers.GripLoops

/-!
# No false alarm

A process runs its workers in phases: the fill pass, the split loop, the run, the final check. In
each of them any number of workers take pages from the queue and put them back in any order. With
memory, files and connections that return what was written last, every page that no worker holds
keeps the promise of its entry, and no error is ever counted (`whole_run_sound`).
-/

namespace StressAppTest

open Threads Work Contract Ownership

/-! ## The workers over the pool -/

/-- The file and the connection a job works with. -/
def Job.ownFile : Job → Option Nat
  | .openFile F | .file F _ => some F.file
  | _ => none

def Job.ownSock : Job → Option Nat
  | .connect sock | .network sock => some sock
  | _ => none

/-- What option parsing and the phase admit: no preset fill; in tag mode no files and no connections,
and no copies before all pages have been filled. -/
def Job.Admitted (sat : Sat) (blank : Bool) : Job → Prop
  | .fill presetOnly _ => presetOnly = false
  | .copy _ => sat.tagMode = true → blank = false
  | .openFile _ | .file _ _ | .connect _ | .network _ => sat.tagMode = false
  | .invert | .check _ | .split _ => True

/-- The workers of a phase: each has its own file and its own, new connection. -/
structure Sat.Admits (sat : Sat) (blank : Bool) {τ : Type} (jobs : τ → Job) (w : World) : Prop where
  admitted : ∀ t, (jobs t).Admitted sat blank
  files : ∀ t t' f, (jobs t).ownFile = some f → (jobs t').ownFile = some f → t = t'
  socks : ∀ t t' k, (jobs t).ownSock = some k → (jobs t').ownSock = some k → t = t'
  connections : ∀ t k, (jobs t).ownSock = some k → w.socket k = []

section Pool

variable {τ : Type} [DecidableEq τ] {sat : Sat} {blank : Bool} {errors : Nat}
  {init : (Nat → Option Slot) → Prop} {jobs : τ → Job} {w₀ : World}

/-- A worker before its loop. -/
def Job.grip (sat : Sat) (job : Job) : Grip sat where
  holding := ⟨0, job.ownFile, job.ownSock⟩
  know w := ∀ k, job.ownSock = some k → w.socket k = []
  stable ha hw k hk := (ha.sock k hk).trans (hw k hk)

theorem Job.Admitted.ready {job : Job} (h : job.Admitted sat blank) :
    GripReady sat blank job (job.grip sat) := by
  have honway {k : Nat} (hk : job.ownSock = some k) : (job.grip sat).OnWay k [] :=
    ⟨hk, fun w hw => by rw [hw k hk]; exact .nil⟩
  cases job with
  | fill presetOnly left => exact h
  | copy tag => exact h
  | openFile F => exact ⟨h, rfl⟩
  | file F pass => exact ⟨h, rfl⟩
  | connect sock => exact ⟨h, honway rfl⟩
  | network sock => exact ⟨h, honway rfl⟩
  | _ => trivial

/-- The contract, the loops and the invariant together. -/
def gripPackage (sat : Sat) (blank : Bool) (errors : Nat) (jobs : τ → Job) (W : World → Prop) :
    Package (poolObj sat.pages sat.pageLength τ init) (workers sat jobs W switches) sat.body (Grip sat) where
  runs := workersRuns
  pending := poolPending
  contract := gripContract sat blank
  L := GripReady sat blank
  X _ _ := True
  I := Gripped blank errors
  turn _ x w hready hw := ⟨x, ⟨.refl _ _, rfl, hw⟩, grip_body hready⟩
  view {s} h t hreq := by
    have hidle : s.obj.op t = .idle := PoolOp.eq_idle_of_request hreq
    have hknow := h.known t
    rwa [hidle] at hknow
  answered {s t r a o} h hreq ho := by
    obtain ⟨r', hdone, -⟩ := ho
    obtain rfl : r' = r := by simpa [poolPending, hdone, PoolOp.request] using hreq
    have hknow := h.known t
    have hsound := h.held.sound t
    have hnodup := h.held.exclusive.nodup t
    rw [hdone] at hknow hsound
    rw [poolHand, hdone] at hnodup
    exact ⟨_, rfl, hsound, by rwa [Grip.hand_settled], _, hknow⟩
  keeps h hs := h.step hs

/-- **Over the pool.** Every state that is reached from one with all promises kept has them kept. -/
theorem gripped_of_reachable (hjobs : sat.Admits blank jobs w₀)
    (hfull : ∀ slot, init slot → ∀ i, (slot i).isSome ↔ i < sat.pages)
    (hsound : ∀ slot, init slot → ∀ i kind pattern, slot i = some (kind, pattern) →
      sat.PageSound blank w₀.mem i kind pattern)
    {s : Sys (poolObj sat.pages sat.pageLength τ init) Ctl World}
    (h : Reachable (poolObj sat.pages sat.pageLength τ init) (workers sat jobs (· = w₀) switches) s) :
    (∀ i kind pattern, s.obj.slot i = some (kind, pattern) →
      sat.PageSound blank s.world.mem i kind pattern) ∧ s.world.miscompares = w₀.miscompares := by
  obtain ⟨a, ha⟩ := (gripPackage sat blank w₀.miscompares jobs (· = w₀)).reachable (fun s hs => by
    obtain ⟨⟨hslot, hidle⟩, hctl, hw⟩ := hs
    have hheld : PoolHeld (gripHandling sat blank)
        (⟨s.obj, fun t => (jobs t).grip sat, s.world⟩ :
          Sys (poolObj sat.pages sat.pageLength τ init) (Grip sat) World) :=
      poolHeld_of_initial (hfull _ hslot) hidle fun _ => rfl
    refine ⟨⟨s.obj, fun t => (jobs t).grip sat, s.world⟩, rfl, rfl, fun t => ?_, fun t r hreq => ?_,
      hheld, ?_, fun t => ?_, hjobs.files, hjobs.socks, by rw [hw]⟩
    · change (gripContract sat blank).Follows _ (s.ctl t).script _
      rw [hctl t]
      exact (hjobs.admitted t).ready
    · exact absurd hreq (by simp [gripPackage, poolPending, hidle t, PoolOp.request])
    · intro i kind pattern hi
      rw [hw]
      exact hsound _ hslot i kind pattern hi
    · dsimp only
      rw [hidle t, hw]
      exact hjobs.connections t) h
  have hgripped : Gripped blank w₀.miscompares a := ha.inv
  refine ⟨fun i kind pattern hi => ?_, ?_⟩
  · have hslots := hgripped.slots i kind pattern
    rw [ha.obj, ha.world] at hslots
    exact hslots hi
  · rw [← ha.world]
    exact hgripped.miscompares

end Pool

/-! ## Phases -/

/-- What a process has between two phases: the queue, the world, and whether no page has been filled
yet. All pages are empty before the fill pass, also after a preset pass; it ends when all are valid. -/
inductive Between {σ : Type} (ready : σ → Prop) (all : PageKind → σ → Prop)
    (phase : Bool → σ → World → σ → World → Prop) : Bool → σ → World → Prop
  | start {p : σ} {w : World} (hready : ready p) (hempty : all .empty p) (hw : w.miscompares = 0) :
      Between ready all phase true p w
  | phase {blank : Bool} {p p' : σ} {w w' : World} (h : Between ready all phase blank p w)
      (hphase : phase blank p w p' w') (hready : ready p') : Between ready all phase blank p' w'
  | filled {p : σ} {w : World} (h : Between ready all phase true p w) (hvalid : all .valid p) :
      Between ready all phase false p w

/-- A promise of all pages that holds of empty pages before the fill pass, that phases keep, and that
does not change when all pages are valid. -/
theorem Between.inv {σ : Type} {ready : σ → Prop} {all : PageKind → σ → Prop}
    {phase : Bool → σ → World → σ → World → Prop} {I : Bool → σ → World → Prop}
    (hstart : ∀ p w, ready p → all .empty p → I true p w)
    (hphase : ∀ blank p w p' w', ready p → I blank p w → phase blank p w p' w' → ready p' →
      I blank p' w' ∧ w'.miscompares = w.miscompares)
    (hfilled : ∀ p w, ready p → all .valid p → I true p w → I false p w) {blank : Bool} {p : σ} {w : World}
    (h : Between ready all phase blank p w) : ready p ∧ I blank p w ∧ w.miscompares = 0 := by
  induction h with
  | start hready hempty hw => exact ⟨hready, hstart _ _ hready hempty, hw⟩
  | phase _ hp hready ih =>
      obtain ⟨hr, hI, hw⟩ := ih
      obtain ⟨hI', hw'⟩ := hphase _ _ _ _ _ hr hI hp hready
      exact ⟨hready, hI', hw'.trans hw⟩
  | filled _ hvalid ih => exact ⟨ih.1, hfilled _ _ ih.1 hvalid ih.2.1, ih.2.2⟩

/-- The workers of one phase, and that they put back only what they have in hand. -/
abbrev Sat.phase (sat : Sat) {τ : Type} (jobs : τ → Job) (w : World) : Program τ Ctl World :=
  workers sat jobs (· = w) switches

abbrev Sat.custody (sat : Sat) {τ : Type} (jobs : τ → Job) (w : World) : Discipline (sat.phase jobs w) :=
  workersDiscipline

/-! ### `FineLockPEQueue` -/

namespace FineLock

/-- Some workers run for a while. -/
def Phase (sat : Sat) (Q : FineLockPEQueue) (blank : Bool) (p : Pages) (w : World) (p' : Pages)
    (w' : World) : Prop :=
  ∃ (τ : Type) (_ : DecidableEq τ) (jobs : τ → Job) (s : Sys (Q.obj τ (· = p)) Ctl World),
    sat.Admits blank jobs w ∧ Reachable (Q.obj τ (· = p)) (sat.phase jobs w) s ∧
      s.obj.toPages = p' ∧ s.world = w'

abbrev Between (sat : Sat) (Q : FineLockPEQueue) : Bool → Pages → World → Prop :=
  StressAppTest.Between (Fresh Q) (fun kind p => ∀ i < Q.qSize, (p.pages i).kind = kind) (Phase sat Q)

/-- The promises of all pages. -/
def AllSound (sat : Sat) (blank : Bool) (p : Pages) (w : World) : Prop :=
  ∀ i < sat.pages, sat.PageSound blank w.mem i (p.pages i).kind (p.pages i).pattern

theorem sound_of_reachable {sat : Sat} {Q : FineLockPEQueue} (hq : Q.qSize = sat.pages)
    (hps : Q.pageSize = sat.pageLength) {blank : Bool} {p : Pages} {w : World} (hp : Fresh Q p)
    (hsound : AllSound sat blank p w) {τ : Type} [DecidableEq τ] {jobs : τ → Job}
    (hjobs : sat.Admits blank jobs w) {s : Sys (Q.obj τ (· = p)) Ctl World}
    (h : Reachable (Q.obj τ (· = p)) (sat.phase jobs w) s) :
    (∀ i < sat.pages, (∀ t, i ∉ taken (sat.custody jobs w) s t) →
      sat.PageSound blank s.world.mem i (s.obj.pages i).kind (s.obj.pages i).pattern) ∧
    s.world.miscompares = w.miscompares := by
  obtain ⟨⟨q, modlength, a, c⟩, pageSize, metric⟩ := Q
  obtain rfl : q = sat.pages := hq
  obtain rfl : pageSize = sat.pageLength := hps
  have hfresh : ∀ p', p' = p → Fresh _ p' := fun _ hp' => hp' ▸ hp
  have howned := owned_of_reachable (sat.custody jobs w) sat.pageLength_pos hfresh h
  have hpool := pool_reachable (sat.custody jobs w) sat.pageLength_pos hfresh h
  obtain ⟨hslots, hmis⟩ := gripped_of_reachable hjobs
    (fun slot hslot i => by
      obtain ⟨_, rfl, rfl⟩ := hslot
      simp only [initSlots]
      split <;> simp [*])
    (fun slot hslot i kind pattern hi => by
      obtain ⟨_, rfl, rfl⟩ := hslot
      simp only [initSlots] at hi
      split at hi
      · next hlt =>
        obtain ⟨rfl, rfl⟩ := Prod.mk.inj (Option.some.inj hi)
        exact hsound i hlt
      · cases hi) hpool
  refine ⟨fun i hi hfree => ?_, hmis⟩
  have hf : Free s.obj i := (free_iff_untaken howned hi).mpr hfree
  exact hslots i _ _ (if_pos ⟨hi, hf⟩)

theorem allSound_of_between {sat : Sat} {Q : FineLockPEQueue} (hq : Q.qSize = sat.pages)
    (hps : Q.pageSize = sat.pageLength) {blank : Bool} {p : Pages} {w : World}
    (h : Between sat Q blank p w) : Fresh Q p ∧ AllSound sat blank p w ∧ w.miscompares = 0 := by
  refine StressAppTest.Between.inv (fun p w _ hempty i hi => ?_)
    (fun blank p w p' w' hp hsound hphase hready => ?_) (fun p w _ hvalid hsound i hi => ?_) h
  · rw [hempty i (hq ▸ hi)]
    exact fun _ hblank => by cases hblank
  · obtain ⟨τ, _, jobs, s, hjobs, hreach, rfl, rfl⟩ := hphase
    obtain ⟨hkept, hmis⟩ := sound_of_reachable hq hps hp hsound hjobs hreach
    refine ⟨fun i hi => hkept i hi ?_, hmis⟩
    have howned := owned_of_reachable (sat.custody jobs w)
      (hps ▸ sat.pageLength_pos) (fun p' hp' => hp' ▸ hp) hreach
    exact (free_iff_untaken howned (hq ▸ hi)).mp (.inl (hready i (hq ▸ hi)).1)
  · have hkept := hsound i hi
    rw [hvalid i (hq ▸ hi)] at hkept ⊢
    exact hkept

end FineLock

/-! ### `PageEntryQueue` -/

namespace OneLock

/-- Some workers run for a while. -/
def Phase (sat : Sat) (blank : Bool) (queue : PageKind → PageEntryQueue) (w : World)
    (queue' : PageKind → PageEntryQueue) (w' : World) : Prop :=
  ∃ (τ : Type) (_ : DecidableEq τ) (jobs : τ → Job) (s : Sys (obj τ (· = queue)) Ctl World),
    sat.Admits blank jobs w ∧ Reachable (obj τ (· = queue)) (sat.phase jobs w) s ∧
      s.obj.queue = queue' ∧ s.world = w'

abbrev Between (sat : Sat) : Bool → (PageKind → PageEntryQueue) → World → Prop :=
  StressAppTest.Between (Full sat.pages sat.pageLength)
    (fun kind queue => ∀ kind', kind' ≠ kind → (queue kind').toList = []) (Phase sat)

/-- With no worker around, all pages are in the pool. -/
theorem Full.isSome_slot {pages pageLength : Nat} {queue : PageKind → PageEntryQueue}
    (h : Full pages pageLength queue) (hlen : 0 < pageLength) (i : Nat) :
    (slot pageLength queue i).isSome ↔ i < pages := by
  constructor
  · intro hsome
    obtain ⟨⟨kind, pattern⟩, hslot⟩ := Option.isSome_iff_exists.mp hsome
    obtain ⟨pe, hpe, hoff, -⟩ := (slot_eq_some_iff h.1).mp hslot
    obtain ⟨j, hj, hoff'⟩ := h.1.aligned pe (mem_entries.mpr ⟨kind, hpe⟩)
    exact Nat.eq_of_mul_eq_mul_right hlen (hoff.symm.trans hoff') ▸ hj
  · intro hi
    rw [Option.isSome_iff_ne_none, Ne, slot_eq_none_iff h.1, h.2 i hi]
    exact Bool.false_ne_true

/-- The promises of all pages in the queues. -/
def AllSound (sat : Sat) (blank : Bool) (queue : PageKind → PageEntryQueue) (w : World) : Prop :=
  ∀ kind, ∀ pe ∈ (queue kind).toList, ∃ i < sat.pages, pe.offset = i * sat.pageLength ∧
    sat.PageSound blank w.mem i kind pe.pattern

theorem sound_of_reachable {sat : Sat} {blank : Bool} {queue : PageKind → PageEntryQueue} {w : World}
    (hfull : Full sat.pages sat.pageLength queue) (hsound : AllSound sat blank queue w) {τ : Type}
    [DecidableEq τ] {jobs : τ → Job} (hjobs : sat.Admits blank jobs w)
    {s : Sys (obj τ (· = queue)) Ctl World}
    (h : Reachable (obj τ (· = queue)) (sat.phase jobs w) s) :
    AllSound sat blank s.obj.queue s.world ∧ s.world.miscompares = w.miscompares := by
  have hfull' : ∀ queue', queue' = queue → Full sat.pages sat.pageLength queue' :=
    fun _ hqueue' => hqueue' ▸ hfull
  have howned := owned_of_reachable (sat.custody jobs w) sat.pageLength_pos hfull' h
  have hpool := pool_reachable (sat.custody jobs w) sat.pageLength_pos hfull' h
  have hstock := hfull.1
  obtain ⟨hslots, hmis⟩ := gripped_of_reachable hjobs
    (fun slot hslot i => by
      obtain ⟨_, rfl, rfl⟩ := hslot
      exact hfull.isSome_slot sat.pageLength_pos i)
    (fun slot hslot i kind pattern hi => by
      obtain ⟨_, rfl, rfl⟩ := hslot
      obtain ⟨pe, hpe, hoff, rfl⟩ := (slot_eq_some_iff hstock).mp hi
      obtain ⟨j, -, hoff', hpage⟩ := hsound kind pe hpe
      obtain rfl := Nat.eq_of_mul_eq_mul_right sat.pageLength_pos (hoff.symm.trans hoff')
      exact hpage) hpool
  refine ⟨fun kind pe hpe => ?_, hmis⟩
  obtain ⟨i, hi, hoff⟩ := howned.stocked.aligned pe (mem_entries.mpr ⟨kind, hpe⟩)
  exact ⟨i, hi, hoff, hslots i kind _ ((slot_eq_some_iff howned.stocked).mpr ⟨pe, hpe, hoff, rfl⟩)⟩

theorem allSound_of_between {sat : Sat} {blank : Bool} {queue : PageKind → PageEntryQueue} {w : World}
    (h : Between sat blank queue w) :
    Full sat.pages sat.pageLength queue ∧ AllSound sat blank queue w ∧ w.miscompares = 0 := by
  refine StressAppTest.Between.inv (fun queue w hfull hempty kind pe hpe => ?_)
    (fun blank queue w queue' w' hfull hsound hphase _ => ?_)
    (fun queue w _ hvalid hsound kind pe hpe => ?_) h
  · obtain ⟨i, hi, hoff⟩ := hfull.1.aligned pe (mem_entries.mpr ⟨kind, hpe⟩)
    cases kind with
    | valid =>
        rw [hempty .valid (by decide)] at hpe
        cases hpe
    | empty => exact ⟨i, hi, hoff, fun _ hblank => by cases hblank⟩
  · obtain ⟨τ, _, jobs, s, hjobs, hreach, rfl, rfl⟩ := hphase
    exact sound_of_reachable hfull hsound hjobs hreach
  · cases kind with
    | valid => exact hsound .valid pe hpe
    | empty =>
        rw [hvalid .empty (by decide)] at hpe
        cases hpe

end OneLock

/-! ## Schedules -/

open FineLock.FineLockPEQueue (Act callActs localActs)

/-- What a schedule from the start comes to is reachable, and there no worker holds an unlocked page. -/
theorem FineLock.reachable_of_run (sat : Sat) {Q : FineLock.FineLockPEQueue} {p : FineLock.Pages}
    (hps : 0 < Q.pageSize) (hp : FineLock.Fresh Q p) {τ : Type} [DecidableEq τ] (jobs : τ → Job)
    (acts : List (Act τ Nat)) (test : FineLock.Pages → World → Bool)
    (h : ((Q.run (· = p) (sat.phase jobs .blank) (fun _ n k w => k.next sat n w)
      ⟨⟨p, fun _ => .idle⟩, fun t => Ctl.start (jobs t), .blank⟩ acts).any
        fun s => test s.obj.toPages s.world) = true) :
    ∃ s, Reachable (Q.obj τ (· = p)) (sat.phase jobs .blank) s ∧
      (∀ i < Q.qSize, s.obj.pagelocks i = false → ∀ t, i ∉ FineLock.taken (sat.custody jobs .blank) s t) ∧
      test s.obj.toPages s.world = true := by
  obtain ⟨s, hs, htest⟩ := (Option.any_eq_true _ _).mp h
  have hlocal : ∀ (t : τ) n (k : Ctl) w k' w', k.next sat n w = some (k', w') →
      (sat.phase jobs .blank).step t k w k' w' := fun _ n _ _ _ _ hn => ⟨n, hn⟩
  have hreach : Reachable (Q.obj τ (· = p)) (sat.phase jobs .blank) s :=
    ⟨_, ⟨⟨rfl, fun _ => rfl⟩, fun _ => rfl, rfl⟩, FineLock.FineLockPEQueue.steps_of_run hlocal hs⟩
  have hfresh : ∀ p', p' = p → FineLock.Fresh Q p' := fun _ hp' => hp' ▸ hp
  have howned := FineLock.owned_of_reachable (sat.custody jobs .blank) hps hfresh hreach
  exact ⟨s, hreach, fun i hi hunlocked => (FineLock.free_iff_untaken howned hi).mp (.inl hunlocked), htest⟩

/-- A fill worker takes a page, fills it and puts it back as valid. -/
def fillActs {τ : Type} (t : τ) (random n : Nat) : List (Act τ Nat) :=
  localActs t 2 ++ callActs t 0 n ++ .loc t (random * 2 ^ 64) :: localActs t 1 ++ callActs t 0 2

/-- **No false alarm.** In every state of every phase, with either queue, a page that no worker holds
keeps the promise of its entry, and no error has been counted. -/
theorem whole_run_sound (sat : Sat) :
    (∀ Q, FineLock.FineLockPEQueue.construct sat.pages sat.pageLength = some Q →
      ∀ blank p w, FineLock.Between sat Q blank p w →
        ∀ (τ : Type) [DecidableEq τ] (jobs : τ → Job), sat.Admits blank jobs w →
          ∀ s, Reachable (Q.obj τ (· = p)) (sat.phase jobs w) s →
            (∀ i < sat.pages, (∀ t, i ∉ FineLock.taken (sat.custody jobs w) s t) →
              sat.PageSound blank s.world.mem i (s.obj.pages i).kind (s.obj.pages i).pattern) ∧
            s.world.miscompares = 0) ∧
    ∀ blank queue w, OneLock.Between sat blank queue w →
      ∀ (τ : Type) [DecidableEq τ] (jobs : τ → Job), sat.Admits blank jobs w →
        ∀ s, Reachable (OneLock.obj τ (· = queue)) (sat.phase jobs w) s →
          (∀ kind, ∀ pe ∈ (s.obj.queue kind).toList, ∃ i < sat.pages, pe.offset = i * sat.pageLength ∧
            sat.PageSound blank s.world.mem i kind pe.pattern) ∧
          s.world.miscompares = 0 := by
  constructor
  · intro Q hQ blank p w hbetween τ _ jobs hjobs s hreach
    obtain ⟨hq, hps⟩ := FineLock.FineLockPEQueue.construct_fields hQ
    obtain ⟨hfresh, hsound, hzero⟩ := FineLock.allSound_of_between hq hps hbetween
    obtain ⟨hkept, hmis⟩ := FineLock.sound_of_reachable hq hps hfresh hsound hjobs hreach
    exact ⟨hkept, hmis.trans hzero⟩
  · intro blank queue w hbetween τ _ jobs hjobs s hreach
    obtain ⟨hfull, hsound, hzero⟩ := OneLock.allSound_of_between hbetween
    obtain ⟨hkept, hmis⟩ := OneLock.sound_of_reachable hfull hsound hjobs hreach
    exact ⟨hkept, hmis.trans hzero⟩

/-- A fill worker and a copy worker: the first page is filled and copied, and the copy is put back. -/
theorem whole_run_sound_five :
    let Q : FineLock.FineLockPEQueue := ⟨⟨5, 5, 7, 8⟩, 1024, .kTouch⟩
    let p : FineLock.Pages := ⟨fun i => .plain (i * 1024) none, fun _ => false⟩
    let sat : Sat := { Sat.small 5 2 with strict := true }
    let jobs : Bool → Job := fun t => if t then .fill false 1 else .copy kDontCareTag
    ∃ s, Reachable (Q.obj Bool (· = p)) (sat.phase jobs .blank) s ∧ (s.obj.pages 4).kind = .valid ∧
      sat.PageSound true s.world.mem 4 (s.obj.pages 4).kind (s.obj.pages 4).pattern ∧
      s.world.miscompares = 0 := by
  intro Q p sat jobs
  have hp : FineLock.Fresh Q p := fun i _ => ⟨rfl, rfl⟩
  have hjobs : sat.Admits true jobs .blank := by
    refine ⟨fun t => ?_, fun t t' f hf => ?_, fun t t' k hk => ?_, fun t k _ => rfl⟩
    all_goals cases t
    · exact fun htag => by cases htag
    · exact rfl
    · cases hf
    · cases hf
    · cases hk
    · cases hk
  let copied (p : FineLock.Pages) (_ : World) : Bool := !p.pagelocks 4 && PageKind.valid.holds (p.pages 4)
  let copyActs := localActs false 3 ++ callActs false 0 4 ++ localActs false 1 ++ callActs false 0 5 ++
    localActs false 1 ++ callActs false 0 2
  obtain ⟨s, hreach, hfree, hcopied⟩ := FineLock.reachable_of_run sat (by decide) hp jobs
    (fillActs true 6 4 ++ copyActs) copied (by decide +kernel)
  simp only [copied, Bool.and_eq_true, Bool.not_eq_true'] at hcopied
  obtain ⟨hunlocked, hvalid⟩ := hcopied
  obtain ⟨hkept, hzero⟩ := (whole_run_sound sat).1 Q (by decide +kernel) true p .blank
    (.start hp (fun i _ => rfl) rfl) Bool jobs hjobs s hreach
  exact ⟨s, hreach, PageKind.holds_iff.mp hvalid, hkept 4 (by decide) (hfree 4 (by decide) hunlocked), hzero⟩

/-! ## Runs that break a promise -/

namespace FineLock

/-- Some run comes to a page that no worker holds and that does not keep the promise of its entry. -/
def Unsound (sat : Sat) (Q : FineLockPEQueue) (p : Pages) {τ : Type} [DecidableEq τ] (jobs : τ → Job) :
    Prop :=
  ∃ s, Reachable (Q.obj τ (· = p)) (sat.phase jobs .blank) s ∧ ∃ i < sat.pages,
    (∀ t, i ∉ taken (sat.custody jobs .blank) s t) ∧
      ¬ sat.PageSound false s.world.mem i (s.obj.pages i).kind (s.obj.pages i).pattern

/-- An unlocked page whose last word is not of its pattern, or whose first word should be a tag. -/
def breaks (sat : Sat) (i : Nat) (p : Pages) (w : World) : Bool :=
  !p.pagelocks i && match (p.pages i).pattern with
    | some pattern =>
      w.mem (sat.pageBase i + (sat.pageWords - 1)) != sat.fillWord (sat.pageBase i) pattern (sat.pageWords - 1)
    | none => sat.tagMode && w.mem (sat.pageBase i + 0) != Sat.addrToTag (sat.pageBase i + 0)

theorem not_pageSound_of_breaks {sat : Sat} {i : Nat} {p : Pages} {w : World} (h : breaks sat i p w = true) :
    ¬ sat.PageSound false w.mem i (p.pages i).kind (p.pages i).pattern := by
  have hpos := sat.pageWords_pos
  unfold breaks at h
  unfold PageEntry.kind
  cases hpattern : (p.pages i).pattern with
  | some pattern =>
      simp only [hpattern, Bool.and_eq_true, bne_iff_ne] at h
      rintro ⟨pattern', hsome, hclean⟩
      obtain rfl := Option.some.inj hsome
      exact h.2 (hclean _ (Nat.sub_lt hpos Nat.one_pos))
  | none =>
      simp only [hpattern, Bool.and_eq_true, bne_iff_ne] at h
      intro htagged
      exact h.2.2 (htagged h.2.1 rfl 0 hpos rfl)

/-- A schedule that comes to such a page. -/
theorem unsound_of_run {sat : Sat} {Q : FineLockPEQueue} {p : Pages} (hps : 0 < Q.pageSize)
    (hp : Fresh Q p) {τ : Type} [DecidableEq τ] {jobs : τ → Job} (acts : List (Act τ Nat))
    {i : Nat} (hi : i < sat.pages) (hq : i < Q.qSize)
    (h : ((Q.run (· = p) (sat.phase jobs .blank) (fun _ n k w => k.next sat n w)
      ⟨⟨p, fun _ => .idle⟩, fun t => Ctl.start (jobs t), .blank⟩ acts).any
        fun s => breaks sat i s.obj.toPages s.world) = true) : Unsound sat Q p jobs := by
  obtain ⟨s, hreach, hfree, hbreaks⟩ := reachable_of_run sat hps hp jobs acts (breaks sat i) h
  have hunlocked : s.obj.pagelocks i = false := by
    rw [breaks, Bool.and_eq_true, Bool.not_eq_true'] at hbreaks
    exact hbreaks.1
  exact ⟨s, hreach, i, hi, hfree i hq hunlocked, not_pageSound_of_breaks hbreaks⟩

end FineLock

/-- From five empty pages: a preset pass leaves a page that is not the one of its entry; in tag mode
empty pages have no tags before the fill pass; two workers with one file read back what the other
one wrote. -/
theorem whole_run_unsound :
    let Q : FineLock.FineLockPEQueue := ⟨⟨5, 5, 7, 8⟩, 1024, .kTouch⟩
    let p : FineLock.Pages := ⟨fun i => .plain (i * 1024) none, fun _ => false⟩
    FineLock.FineLockPEQueue.construct 5 1024 = some Q ∧
    FineLock.Unsound { Sat.small 5 2 with fillPreset := .zero } Q p (fun _ : Unit => .fill true 1) ∧
    FineLock.Unsound { Sat.small 5 2 with tagMode := true } Q p (fun _ : Unit => .fill false 5) ∧
    FineLock.Unsound (.small 5 2) Q p (fun t : Option Bool =>
      match t with
      | none => .fill false 2
      | some b => .openFile ⟨b.toNat, 7⟩) := by
  intro Q p
  have hp : FineLock.Fresh Q p := fun i _ => ⟨rfl, rfl⟩
  refine ⟨by decide +kernel, ?_, ?_, ?_⟩
  · refine FineLock.unsound_of_run (i := 1) (by decide) hp (fillActs () 0 4) (by decide) (by decide) ?_
    decide +kernel
  · refine FineLock.unsound_of_run (i := 1) (by decide) hp [] (by decide) (by decide) ?_
    decide +kernel
  · -- both take a page and write it to the file, then the first takes an empty page and reads
    let writeActs (b : Bool) (n : Nat) :=
      localActs (some b) 5 ++ callActs (some b) 0 n ++ localActs (some b) 3 ++ callActs (some b) 0 3
    let readActs (b : Bool) (n : Nat) :=
      localActs (some b) 1 ++ callActs (some b) 0 n ++ localActs (some b) 2 ++ callActs (some b) 0 2
    refine FineLock.unsound_of_run (i := 1) (by decide) hp
      (fillActs none 1 4 ++ fillActs none 6 5 ++ writeActs false 4 ++ writeActs true 5 ++
        readActs false 4)
      (by decide) (by decide) ?_
    decide +kernel

end StressAppTest
