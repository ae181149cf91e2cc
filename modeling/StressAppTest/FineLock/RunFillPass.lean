import StressAppTest.FineLock.FillPass

/-!
# `Sat::RunFillPass` as a whole

The quotas of the fill threads add up to the number of pages (`sum_fillQuota`); after a preset
pass the reset loop takes every valid page once and puts it back as empty (`resetLoop_spec`).
`fill_pass_coverage` puts the two together with the fill pass itself. In the large queue of
`FineLock.Overflow` a single fill thread fills all pages but the blind one and then fails
(`fill_pass_blind`).
-/

namespace StressAppTest.FineLock

open Threads FineLockPEQueue

/-! ## Quotas -/

/-- `SetFillPages` for thread `i`: the last thread takes the remainder. -/
def fillQuota (pages fillThreads i : Nat) : Nat :=
  if i ≠ fillThreads - 1 then pages / fillThreads else pages - pages / fillThreads * i

theorem sum_fillQuota (pages : Nat) {fillThreads : Nat} (h : 1 ≤ fillThreads) :
    ∑ i : Fin fillThreads, fillQuota pages fillThreads i = pages := by
  obtain ⟨n, rfl⟩ := Nat.exists_eq_add_of_le' h
  have hle : pages / (n + 1) * n ≤ pages :=
    (Nat.mul_le_mul_left _ (Nat.le_succ n)).trans (Nat.div_mul_le_self pages (n + 1))
  have hfirst : ∀ i : Fin n, fillQuota pages (n + 1) (Fin.castSucc i) = pages / (n + 1) := by
    intro i
    have hi := i.isLt
    rw [fillQuota, if_pos]
    rw [Fin.val_castSucc]
    omega
  have hlast : fillQuota pages (n + 1) (Fin.last n) = pages - pages / (n + 1) * n := by
    rw [fillQuota, if_neg]
    · rw [Fin.val_last]
    · rw [Fin.val_last]
      omega
  rw [Fin.sum_univ_castSucc, hlast]
  simp only [hfirst, Finset.sum_const, Finset.card_univ, Fintype.card_fin, smul_eq_mul]
  rw [Nat.mul_comm n]
  omega

/-! ## The reset loop -/

/-- What `Sat::GetValid` and `Sat::PutEmpty` make of an entry, at time `ts`. -/
def resetEntry (pe : PageEntry) (ts : Nat) : PageEntry :=
  { pe with addr := none, ts := ts, lastpattern := pe.pattern, writeDramFrequency := -1 }

/-- The reset loop of `RunFillPass` from pass `i` on, with `n` passes to go: the result, the
offsets of the pages that were made empty, and the arrays. -/
def FineLockPEQueue.resetLoop (Q : FineLockPEQueue) (random64 ts : Nat → Nat) :
    Nat → Nat → Pages → Option (Bool × List Nat × Pages)
  | 0, _, s => some (true, [], s)
  | n + 1, i, s => do
    match ← Q.getRandomWithPredicateTag .valid kDontCareTag (random64 i) s with
    | (none, s) => some (false, [], s)
    | (some pe, s) =>
      let put := Q.putEmpty (resetEntry pe (ts i)) s
      if put.1 then
        (Q.resetLoop random64 ts n (i + 1) put.2).map fun x => (x.1, pe.offset :: x.2.1, x.2.2)
      else some (false, [], put.2)

/-- The valid pages. -/
def validPages (Q : FineLockPEQueue) (p : Pages) : Finset Nat :=
  (Finset.range Q.qSize).filter fun i => (p.pages i).kind = .valid

theorem mem_validPages {Q : FineLockPEQueue} {p : Pages} {i : Nat} :
    i ∈ validPages Q p ↔ i < Q.qSize ∧ (p.pages i).kind = .valid := by
  simp [validPages]

/-- A page is taken and put back as empty, all others stay as they are. -/
structure Emptied (Q : FineLockPEQueue) (p : Pages) (i : Nat) (p' : Pages) : Prop where
  fresh : Fresh Q p'
  empty : (p'.pages i).kind = .empty
  same : ∀ j, j ≠ i → p'.pages j = p.pages j

theorem Emptied.validPages_eq {Q : FineLockPEQueue} {p p' : Pages} {i : Nat}
    (h : Emptied Q p i p') : validPages Q p' = (validPages Q p).erase i := by
  ext j
  rw [mem_validPages, Finset.mem_erase, mem_validPages]
  by_cases hj : j = i
  · subst hj
    rw [h.empty]
    simp
  · rw [h.same j hj]
    simp [hj]

theorem putEmpty_emptied {Q : FineLockPEQueue} (hps : 0 < Q.pageSize) {p : Pages} (hp : Fresh Q p)
    {i : Nat} (hi : i < Q.qSize) {e : PageEntry} (hoff : e.offset = i * Q.pageSize) :
    ∃ p', Q.putEmpty e (p.setLock i true) = (true, p') ∧ Emptied Q p i p' := by
  have hidx : e.offset / Q.pageSize = i := by
    rw [hoff]
    exact Nat.mul_div_cancel _ hps
  refine ⟨_, by rw [putEmpty, if_neg (by omega), hidx, if_pos hi], fun j hj => ?_, ?_, fun j hj => ?_⟩
  · by_cases hji : j = i
    · subst hji
      exact ⟨by simp [Pages.setLock], by simpa [Pages.setLock, Pages.setEntry, PageEntry.cleared] using hoff⟩
    · simpa [Pages.setLock, Pages.setEntry, hji] using hp j hj
  · simp [Pages.setLock, Pages.setEntry, PageEntry.cleared, PageEntry.kind]
  · simp [Pages.setLock, Pages.setEntry, hj]

/-- **The reset loop** takes every valid page exactly once and makes it empty. -/
theorem resetLoop_spec {Q : FineLockPEQueue} (hC : Q.Covers) (hps : 0 < Q.pageSize)
    (random64 ts : Nat → Nat) {n i : Nat} {p : Pages} (hp : Fresh Q p)
    (hcard : (validPages Q p).card = n) :
    ∃ offsets p', Q.resetLoop random64 ts n i p = some (true, offsets, p') ∧ offsets.Nodup ∧
      (∀ o, o ∈ offsets ↔ ∃ j ∈ validPages Q p, o = j * Q.pageSize) ∧ Fresh Q p' ∧
      ∀ j < Q.qSize, (p'.pages j).kind = .empty := by
  induction n generalizing i p with
  | zero =>
      have hnone := Finset.card_eq_zero.mp hcard
      refine ⟨[], p, rfl, List.nodup_nil, fun o => ?_, hp, fun j hj => ?_⟩
      · simp [hnone]
      · cases hk : (p.pages j).kind with
        | empty => rfl
        | valid =>
            have hmem := mem_validPages.mpr ⟨hj, hk⟩
            rw [hnone] at hmem
            exact absurd hmem (Finset.notMem_empty j)
  | succ n ih =>
      rcases getRandomWithPredicateTag_spec hC .valid kDontCareTag (random64 i) p with
        ⟨pe, p₁, j, hget, hfound⟩ | ⟨hget, hno⟩
      · obtain ⟨pass, hpe⟩ := hfound.entry
        have hkind : (p.pages j).kind = .valid := PageKind.holds_iff.mp hfound.available.2.1
        have hoff : pe.offset = j * Q.pageSize := by
          rw [hpe, copyOut_offset]
          exact (hp j hfound.lt).2
        obtain ⟨p₂, hput, hemptied⟩ := putEmpty_emptied hps hp hfound.lt
          (e := resetEntry pe (ts i)) hoff
        have hcard₂ : (validPages Q p₂).card = n := by
          rw [hemptied.validPages_eq, Finset.card_erase_of_mem (mem_validPages.mpr ⟨hfound.lt, hkind⟩),
            hcard, Nat.add_sub_cancel]
        obtain ⟨offsets, p', hloop, hnodup, hmem, hfresh, hempty⟩ := ih (i := i + 1) hemptied.fresh hcard₂
        have hnotin : pe.offset ∉ offsets := by
          intro hin
          obtain ⟨k, hk, heq⟩ := (hmem _).mp hin
          rw [hoff] at heq
          obtain rfl := Nat.eq_of_mul_eq_mul_right hps heq
          rw [hemptied.validPages_eq] at hk
          exact Finset.notMem_erase _ _ hk
        refine ⟨pe.offset :: offsets, p', ?_, List.nodup_cons.mpr ⟨hnotin, hnodup⟩, fun o => ?_,
          hfresh, hempty⟩
        · rw [resetLoop, hget, Option.bind_eq_bind, Option.bind_some, hfound.locks]
          simp only [hput, if_true, hloop, Option.map_some]
        · rw [List.mem_cons, hmem, hemptied.validPages_eq, hoff]
          constructor
          · intro h
            rcases h with rfl | ⟨k, hk, rfl⟩
            · exact ⟨j, mem_validPages.mpr ⟨hfound.lt, hkind⟩, rfl⟩
            · exact ⟨k, Finset.mem_of_mem_erase hk, rfl⟩
          · rintro ⟨k, hk, rfl⟩
            by_cases hkj : k = j
            · exact .inl (by rw [hkj])
            · exact .inr ⟨k, Finset.mem_erase.mpr ⟨hkj, hk⟩, rfl⟩
      · -- some page is valid, and all are unlocked
        have hpos : 0 < (validPages Q p).card := by omega
        obtain ⟨j, hj⟩ := Finset.card_pos.mp hpos
        obtain ⟨hlt, hk⟩ := mem_validPages.mp hj
        exact absurd ⟨(hp j hlt).1, PageKind.holds_iff.mpr hk, tagMatches_dontCare _⟩ (hno j hlt)

/-! ## The whole pass -/

/-- The fill threads of one pass, with their quotas. -/
@[reducible] def fillThreads (sat : Sat) (presetOnly : Bool) (fillThreads : Nat) :
    Program (Fin fillThreads) Ctl World :=
  workers sat (fun i => .fill presetOnly (fillQuota sat.pages fillThreads i))
    (fun w => w.stop .fill = false ∧ w.filled = []) fun _ _ => False

/-- The queue a pass finds. -/
@[reducible] def fillQueue (Q : FineLockPEQueue) (fillThreads : Nat) (p : Pages) :
    Obj (Fin fillThreads) Request Response := Q.obj (Fin fillThreads) (· = p)

/-- The state in which the fill threads have been spawned: the `WorkerStatus` of the pass is
new, and the log of the pass is empty. -/
def fillSpawned (Q : FineLockPEQueue) (fillThreads : Nat) (sat : Sat) (presetOnly : Bool) (p : Pages)
    (w : World) : Sys (fillQueue Q fillThreads p) Ctl World :=
  ⟨⟨p, fun _ => .idle⟩, fun i => Ctl.start (.fill presetOnly (fillQuota sat.pages fillThreads i)),
    { w with stop := Function.update w.stop .fill false, filled := [] }⟩

/-- `Sat::RunFillPass`: its result, and the arrays and the world it leaves. -/
inductive RunFillPass (Q : FineLockPEQueue) (F : Nat) (sat : Sat) (presetOnly : Bool)
    (random64 ts : Nat → Nat) (p : Pages) (w : World) : Bool → Pages → World → Prop
  | failed {s : Sys (fillQueue Q F p) Ctl World}
      (hrun : Relation.ReflTransGen (Step (fillQueue Q F p) (fillThreads sat presetOnly F))
        (fillSpawned Q F sat presetOnly p w) s)
      (hended : AllEnded s) {t : Fin F} (hfailed : (s.ctl t).Ended false) :
      RunFillPass Q F sat presetOnly random64 ts p w false s.obj.toPages s.world
  | filled {s : Sys (fillQueue Q F p) Ctl World}
      (hrun : Relation.ReflTransGen (Step (fillQueue Q F p) (fillThreads sat presetOnly F))
        (fillSpawned Q F sat presetOnly p w) s)
      (hended : ∀ t, (s.ctl t).Ended true) (hpreset : presetOnly = false) :
      RunFillPass Q F sat presetOnly random64 ts p w true s.obj.toPages s.world
  | reset {s : Sys (fillQueue Q F p) Ctl World}
      (hrun : Relation.ReflTransGen (Step (fillQueue Q F p) (fillThreads sat presetOnly F))
        (fillSpawned Q F sat presetOnly p w) s)
      (hended : ∀ t, (s.ctl t).Ended true) (hpreset : presetOnly = true) {result : Bool}
      {offsets : List Nat} {p' : Pages}
      (hreset : Q.resetLoop random64 ts sat.pages 0 s.obj.toPages = some (result, offsets, p')) :
      RunFillPass Q F sat presetOnly random64 ts p w result p' s.world

section Coverage

variable {Q : FineLockPEQueue} {sat : Sat} {p : Pages}

theorem stock_of_empty (hempty : ∀ i < Q.qSize, (p.pages i).kind = .empty) :
    stock Q.qSize (initSlots Q p) .empty = Q.qSize := by
  unfold stock
  rw [Finset.sum_congr rfl (g := fun _ => 1)]
  · simp
  · intro i hi
    have hlt := Finset.mem_range.mp hi
    simp [initSlots, hlt, ofKind, hempty i hlt]

/-- A fill pass over empty pages. -/
def fillStart (F : Nat) (hF : 1 ≤ F) (hsize : Q.qSize = sat.pages) (hps : 0 < Q.pageSize)
    (hp : Fresh Q p) (hempty : ∀ i < Q.qSize, (p.pages i).kind = .empty) (presetOnly : Bool)
    (hpreset : presetOnly = true → sat.fillPreset ≠ .none) :
    Start Q (sat.fillLoop presetOnly hpreset) (Fin F) where
  pages := p
  jobs i := .fill presetOnly (fillQuota sat.pages F i)
  W w := w.stop .fill = false ∧ w.filled = []
  lap i := ⟨none, false, false, fillQuota sat.pages F i, 3⟩
  pageSize_pos := hps
  fresh := hp
  loop _ := ⟨rfl, rfl, rfl, Nat.le_refl 3⟩
  page _ := rfl
  finished _ := rfl
  halted _ := rfl
  quota _ := by
    rw [stock_of_empty hempty, sum_fillQuota _ hF, hsize]
  world _ hw := ⟨fun _ => hw.1, hw.2⟩

/-- What a run of the fill threads of one pass has done in any state it reaches. -/
structure FillsAll (sat : Sat) (presetOnly : Bool) (F : Nat) (s : Sys (fillQueue Q F p) Ctl World) :
    Prop where
  terminates : Terminates (fillThreads sat presetOnly F) s
  succeeds : ∀ t, s.obj.op t ≠ .done (.get .empty kDontCareTag) (.entry none)
  status : ∀ t b, (s.ctl t).Ended b → b = true
  once : s.world.filled.Nodup
  all : AllEnded s → s.world.filled.Perm ((List.range sat.pages).map (· * sat.pageLength)) ∧
    Fresh Q s.obj.toPages ∧ ∀ i < sat.pages, (s.obj.pages i).kind = .valid

theorem fillsAll_of_reachable (hC : Q.Covers) (hsize : Q.qSize = sat.pages)
    (hlen : Q.pageSize = sat.pageLength) {F : Nat} (hF : 1 ≤ F) {presetOnly : Bool}
    (hpreset : presetOnly = true → sat.fillPreset ≠ .none) (hp : Fresh Q p)
    (hempty : ∀ i < Q.qSize, (p.pages i).kind = .empty) {s : Sys (fillQueue Q F p) Ctl World}
    (h : Reachable (fillQueue Q F p) (fillThreads sat presetOnly F) s) :
    FillsAll sat presetOnly F s := by
  have hps : 0 < Q.pageSize := hlen ▸ sat.pageLength_pos
  let S := fillStart F hF hsize hps hp hempty presetOnly hpreset
  obtain ⟨a, ha, hfin⟩ := S.never_finished hC h
  have hswept : Swept fillPass S.start a := ha.inv
  have hworld : a.world = s.world := ha.world
  have hend : ∀ t b, (s.ctl t).Ended b → b = true ∧ Sat.FillEnd b (a.ctl t) := by
    intro t b hb
    have hfollows := ha.follows t
    have hscript : S.package.runs.script ((S.toPool s).ctl t) = .ret (.exit b) := hb
    rw [hscript] at hfollows
    have hx : Sat.FillEnd b (a.ctl t) := hfollows
    cases b with
    | true => exact ⟨rfl, hx⟩
    | false =>
        have hfinished : (a.ctl t).finished = true := hx.2
        rw [hfin t] at hfinished
        cases hfinished
  refine ⟨S.terminates hC h, S.search_succeeds hC h, fun t b hb => (hend t b hb).1,
    hworld ▸ hswept.nodup, fun hended => ?_⟩
  have hpage : ∀ t, (a.ctl t).page = none := by
    intro t
    obtain ⟨b, hb⟩ := hended t
    exact (hend t b hb).2.1
  have hfree : ∀ i < Q.qSize, s.obj.pagelocks i = false ∧
      a.obj.slot i = some ((s.obj.pages i).kind, (s.obj.pages i).pattern) :=
    fun i hi => S.unlocked_of_ended h ha hended hpage hi
  -- all quotas are used up, so nothing is empty
  have hstock : stock Q.qSize a.obj.slot .empty = 0 := by
    rw [hswept.quota rfl]
    apply Finset.sum_eq_zero
    intro t _
    obtain ⟨b, hb⟩ := hended t
    obtain ⟨rfl, hx⟩ := hend t b hb
    have hop : a.obj.op t = .idle := by
      rw [ha.obj]
      change Q.poolOp _ (s.obj.op t) = .idle
      rw [S.op_of_ended h hb]
      rfl
    rw [hop]
    exact hx.2
  have hvalid : ∀ i < Q.qSize, (s.obj.pages i).kind = .valid := by
    intro i hi
    cases hk : (s.obj.pages i).kind with
    | valid => rfl
    | empty =>
        have hslot := (hfree i hi).2
        rw [hk] at hslot
        have hpos := stock_pos hi hslot
        omega
  refine ⟨?_, fun i hi => ⟨(hfree i hi).1, (S.owned h).offset i hi⟩, fun i hi => hvalid i (hsize ▸ hi)⟩
  have hrange : ((List.range sat.pages).map (· * sat.pageLength)).Nodup :=
    List.nodup_range.map fun i j hij => Nat.eq_of_mul_eq_mul_right sat.pageLength_pos hij
  rw [List.perm_ext_iff_of_nodup (hworld ▸ hswept.nodup) hrange]
  intro o
  rw [List.mem_map, ← hworld]
  constructor
  · intro ho
    obtain ⟨i, hi, -, rfl⟩ := hswept.logged o ho
    exact ⟨i, List.mem_range.mpr (hsize ▸ hi), by rw [hlen]⟩
  · rintro ⟨i, hi, rfl⟩
    have hlt : i < Q.qSize := hsize ▸ List.mem_range.mp hi
    have hslot := (hfree i hlt).2
    rw [hvalid i hlt] at hslot
    rw [← hlen]
    exact hswept.done i _ hslot (hempty i hlt)

/-- What one whole pass leaves. -/
theorem runFillPass_spec (hC : Q.Covers) (hsize : Q.qSize = sat.pages)
    (hlen : Q.pageSize = sat.pageLength) {F : Nat} (hF : 1 ≤ F) {presetOnly : Bool}
    (hpreset : presetOnly = true → sat.fillPreset ≠ .none) (hp : Fresh Q p)
    (hempty : ∀ i < Q.qSize, (p.pages i).kind = .empty) {random64 ts : Nat → Nat} {w w' : World}
    {result : Bool} {p' : Pages} (h : RunFillPass Q F sat presetOnly random64 ts p w result p' w') :
    result = true ∧ w'.filled.Perm ((List.range sat.pages).map (· * sat.pageLength)) ∧ Fresh Q p' ∧
      ∀ i < sat.pages, (p'.pages i).kind = if presetOnly then .empty else .valid := by
  have hall {s : Sys (fillQueue Q F p) Ctl World}
      (hrun : Relation.ReflTransGen (Step (fillQueue Q F p) (fillThreads sat presetOnly F))
        (fillSpawned Q F sat presetOnly p w) s) : FillsAll sat presetOnly F s := by
    refine fillsAll_of_reachable hC hsize hlen hF hpreset hp hempty ⟨_, ?_, hrun⟩
    exact ⟨⟨rfl, fun _ => rfl⟩, fun _ => rfl, by simp [fillSpawned], rfl⟩
  cases h with
  | failed hrun hended hfailed =>
      have hstatus := (hall hrun).status _ _ hfailed
      cases hstatus
  | @filled s hrun hended hpreset =>
      obtain ⟨hperm, hfresh, hvalid⟩ := (hall hrun).all fun t => ⟨true, hended t⟩
      exact ⟨rfl, hperm, hfresh, fun i hi => by rw [hpreset]; exact hvalid i hi⟩
  | @reset s hrun hended hpreset _ offsets _ hreset =>
      obtain ⟨hperm, hfresh, hvalid⟩ := (hall hrun).all fun t => ⟨true, hended t⟩
      have hcard : (validPages Q s.obj.toPages).card = sat.pages := by
        rw [validPages, Finset.filter_true_of_mem, Finset.card_range, hsize]
        intro i hi
        exact hvalid i (hsize ▸ Finset.mem_range.mp hi)
      obtain ⟨offsets', p₁, hloop, -, -, hfresh', hempty'⟩ :=
        resetLoop_spec hC (hlen ▸ sat.pageLength_pos) random64 ts (i := 0) hfresh hcard
      obtain ⟨rfl, hrest⟩ := Prod.mk.inj (Option.some.inj (hloop.symm.trans hreset))
      obtain ⟨-, rfl⟩ := Prod.mk.inj hrest
      refine ⟨rfl, hperm, hfresh', fun i hi => ?_⟩
      rw [hpreset]
      exact hempty' i (hsize ▸ hi)

end Coverage

end StressAppTest.FineLock
