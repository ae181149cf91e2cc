import StressAppTest.Pool
import StressAppTest.FineLock.Ownership

/-!
# The queue refines the pool

A page is in the pool unless a thread has it: its lock is open, or only taken for a moment by
a search that has not yet confirmed what it found (`Free`). A get takes its page out of the
pool when the recheck confirms it; a put brings it back when it unlocks. All other steps of a
call leave the pool as it is.

* `simulation`: under `Owned` every step of the queue is a step of the pool, or none.
* `free_iff_untaken`: a page is in the pool exactly when no worker holds it (`taken`).
-/

namespace StressAppTest.FineLock

open Threads Ownership Classical

/-- A search has locked page `i` and not confirmed it. -/
def Transient : Op → Nat → Prop
  | .recheck _ j, i | .giveUp _ j, i => j = i
  | _, _ => False

/-- Page `i` is in the pool. -/
def Free {τ : Type} (s : FineLockPEQueue.State τ) (i : Nat) : Prop :=
  s.pagelocks i = false ∨ ∃ t, Transient (s.op t) i

namespace FineLockPEQueue

/-- Where a thread stands, seen from the pool. -/
def poolOp (Q : FineLockPEQueue) (p : Pages) : Op → PoolOp
  | .idle => .idle
  | .scan c | .testTag c _ | .tryLock c _ | .recheck c _ | .giveUp c _ =>
    .busy (.get c.kind c.tag)
  | .copyOut c i =>
    .done (.get c.kind c.tag) (.entry (some (Q.copyOut c.kind c.i (p.pages i))))
  | .copyIn kind pe _ | .unlock kind pe _ => .busy (.put kind pe)
  | .clear pe _ => .busy (.put .empty pe)
  | .done r a => .done r a

/-- The pool a queue stands for. -/
noncomputable def toPool {τ : Type} (Q : FineLockPEQueue) (s : State τ) : PoolState τ where
  slot i := if i < Q.qSize ∧ Free s i then some ((s.pages i).kind, (s.pages i).pattern) else none
  op t := Q.poolOp s.toPages (s.op t)

end FineLockPEQueue

section

variable {τ κ ω : Type} [DecidableEq τ] {C : Program τ κ ω} {Q : FineLockPEQueue}
  {init : Pages → Prop} {D : Discipline C}

/-- A put that is about to unlock a valid page has stored its pattern. -/
def Stored (s : Sys (Q.obj τ init) κ ω) : Prop :=
  ∀ t pe i, s.obj.op t = .unlock .valid pe i → (s.obj.pages i).pattern = pe.pattern

theorem Transient.mem_holding {s : Sys (Q.obj τ init) κ ω} {t : τ} {i : Nat}
    (h : Transient (s.obj.op t) i) : i ∈ holding D s t := by
  unfold holding
  cases ho : s.obj.op t with
  | recheck c j =>
      rw [ho] at h
      obtain rfl : j = i := h
      simp [FineLockPEQueue.inHand]
  | giveUp c j =>
      rw [ho] at h
      obtain rfl : j = i := h
      simp [FineLockPEQueue.inHand]
  | _ =>
      rw [ho] at h
      exact h.elim

/-! ## One step -/

omit [DecidableEq τ] in
/-- Pages that stay where they are, in or out of the pool, and keep their entry while in it. -/
theorem slot_congr {s s' : FineLockPEQueue.State τ}
    (hfree : ∀ i < Q.qSize, Free s' i ↔ Free s i)
    (hpages : ∀ i < Q.qSize, Free s i → s'.pages i = s.pages i) :
    (Q.toPool s').slot = (Q.toPool s).slot := by
  funext i
  simp only [FineLockPEQueue.toPool]
  by_cases hi : i < Q.qSize
  · by_cases hf : Free s i
    · rw [if_pos ⟨hi, (hfree i hi).mpr hf⟩, if_pos ⟨hi, hf⟩, hpages i hi hf]
    · rw [if_neg fun h => hf ((hfree i hi).mp h.2), if_neg fun h => hf h.2]
  · rw [if_neg fun h => hi h.1, if_neg fun h => hi h.1]

omit [DecidableEq τ] in
/-- Pages that stay where they are except for page `j`. -/
theorem slot_update {s s' : FineLockPEQueue.State τ} {j : Nat} {x : Option Slot}
    (hfree : ∀ i < Q.qSize, i ≠ j → (Free s' i ↔ Free s i))
    (hpages : ∀ i < Q.qSize, i ≠ j → s'.pages i = s.pages i) (hj : (Q.toPool s').slot j = x) :
    (Q.toPool s').slot = Function.update (Q.toPool s).slot j x := by
  funext i
  by_cases hij : i = j
  · subst hij
    rw [hj, Function.update_self]
  · rw [Function.update_of_ne hij]
    simp only [FineLockPEQueue.toPool]
    by_cases hi : i < Q.qSize
    · by_cases hf : Free s i
      · rw [if_pos ⟨hi, (hfree i hi hij).mpr hf⟩, if_pos ⟨hi, hf⟩, hpages i hi hij]
      · rw [if_neg fun h => hf ((hfree i hi hij).mp h.2), if_neg fun h => hf h.2]
    · rw [if_neg fun h => hi h.1, if_neg fun h => hi h.1]

omit [DecidableEq τ] in
theorem toPool_eq {s : FineLockPEQueue.State τ} {slot : Nat → Option Slot} {op : τ → PoolOp}
    (hslot : (Q.toPool s).slot = slot) (hop : (Q.toPool s).op = op) : Q.toPool s = ⟨slot, op⟩ :=
  PoolState.ext hslot hop

/-- The pool sees of a step that writes only pages in hand what its own thread does. -/
theorem op_update {s : Sys (Q.obj τ init) κ ω} (h : Owned D s) (hps : 0 < Q.pageSize) {t : τ}
    {p : Pages} {o : Op} (hframe : ∀ i, i ∉ holding D s t → p.pages i = s.obj.pages i) :
    (Q.toPool (⟨p, Function.update s.obj.op t o⟩ : FineLockPEQueue.State τ)).op =
      Function.update (Q.toPool s.obj).op t (Q.poolOp p o) := by
  funext t'
  by_cases ht : t' = t
  · subst ht
    simp [FineLockPEQueue.toPool]
  · simp only [FineLockPEQueue.toPool, Function.update_of_ne ht]
    cases ho : s.obj.op t' with
    | copyOut c i =>
        have hmem : i ∈ holding D s t' := h.mem_of_reads hps (by rw [ho]; rfl)
        have hpage : p.pages i = s.obj.pages i :=
          hframe i fun hmem' => ht (h.exclusive.owner_unique hmem hmem')
        simp [FineLockPEQueue.poolOp, hpage]
    | _ => rfl

/-- `Free` after a step of thread `t`. -/
theorem free_update_iff {s : FineLockPEQueue.State τ} {t : τ} {p : Pages} {o : Op} {i : Nat} :
    Free (⟨p, Function.update s.op t o⟩ : FineLockPEQueue.State τ) i ↔
      p.pagelocks i = false ∨ Transient o i ∨ ∃ t', t' ≠ t ∧ Transient (s.op t') i := by
  unfold Free
  refine or_congr Iff.rfl ?_
  constructor
  · intro hex
    obtain ⟨t', ht'⟩ := hex
    by_cases ht : t' = t
    · subst ht
      left
      simpa using ht'
    · right
      exact ⟨t', ht, by simpa [ht] using ht'⟩
  · intro hor
    cases hor with
    | inl ho => exact ⟨t, by simpa using ho⟩
    | inr hex =>
        obtain ⟨t', ht, ht'⟩ := hex
        exact ⟨t', by simpa [ht] using ht'⟩

theorem free_iff {s : FineLockPEQueue.State τ} (t : τ) {i : Nat} :
    Free s i ↔ s.pagelocks i = false ∨ Transient (s.op t) i ∨
      ∃ t', t' ≠ t ∧ Transient (s.op t') i := by
  have h := free_update_iff (s := s) (t := t) (p := s.toPages) (o := s.op t) (i := i)
  rwa [Function.update_eq_self] at h

/-- A page that a thread has in hand, and not only for a moment, is out of the pool. -/
theorem not_free_of_mem {s : Sys (Q.obj τ init) κ ω} (h : Owned D s) {t : τ} {i : Nat}
    (hmem : i ∈ holding D s t) (hno : ¬ Transient (s.obj.op t) i) : ¬ Free s.obj i := by
  intro hf
  cases hf with
  | inl hl => simp [h.exclusive.locked_of_mem hmem] at hl
  | inr hex =>
      obtain ⟨t', ht'⟩ := hex
      have heq : t' = t := h.exclusive.owner_unique (Transient.mem_holding (D := D) ht') hmem
      exact hno (heq ▸ ht')

/-- Only page `j` changes its lock or is held for a moment, and it is in the pool before and after. -/
theorem free_iff_of_page {s : FineLockPEQueue.State τ} {t : τ} {p : Pages} {o : Op} {j : Nat}
    (hj : Free s j)
    (hj' : Free (⟨p, Function.update s.op t o⟩ : FineLockPEQueue.State τ) j)
    (hlock : ∀ i, i ≠ j → p.pagelocks i = s.pagelocks i)
    (htr : ∀ i, i ≠ j → (Transient o i ↔ Transient (s.op t) i)) (i : Nat) :
    Free (⟨p, Function.update s.op t o⟩ : FineLockPEQueue.State τ) i ↔ Free s i := by
  by_cases hij : i = j
  · subst hij
    exact iff_of_true hj' hj
  · rw [free_update_iff, free_iff t, hlock i hij]
    exact or_congr Iff.rfl (or_congr (htr i hij) Iff.rfl)

omit [DecidableEq τ] in
theorem setLock_of_ne {p : Pages} {i j : Nat} {b : Bool} (hij : i ≠ j) :
    (p.setLock j b).pagelocks i = p.pagelocks i := by
  simp [Pages.setLock, hij]

section MicroStep

variable {s : Sys (Q.obj τ init) κ ω} {t : τ} {p : Pages} {o o' : Op}

/-- A step that the pool does not see. -/
theorem toPool_stutter (h : Owned D s) (hps : 0 < Q.pageSize) (ho : s.obj.op t = o)
    (hframe : ∀ i, i ∉ holding D s t → p.pages i = s.obj.pages i)
    (hfree : ∀ i < Q.qSize, Free (⟨p, Function.update s.obj.op t o'⟩ : FineLockPEQueue.State τ) i ↔
      Free s.obj i)
    (hpages : ∀ i < Q.qSize, Free s.obj i → p.pages i = s.obj.pages i)
    (hop : Q.poolOp p o' = Q.poolOp s.obj.toPages o) :
    Q.toPool (⟨p, Function.update s.obj.op t o'⟩ : FineLockPEQueue.State τ) = Q.toPool s.obj := by
  have hopt : (Q.toPool s.obj).op t = Q.poolOp s.obj.toPages o := by
    simp [FineLockPEQueue.toPool, ho]
  have hslot := slot_congr (Q := Q) hfree hpages
  have hop' := op_update h hps (t := t) (p := p) (o := o') hframe
  rw [hop, ← hopt, Function.update_eq_self] at hop'
  exact PoolState.ext hslot hop'

/-- A step that neither locks nor stores. -/
theorem toPool_quiet (h : Owned D s) (hps : 0 < Q.pageSize) (ho : s.obj.op t = o)
    (htr : ∀ i, Transient o' i ↔ Transient o i)
    (hop : Q.poolOp s.obj.toPages o' = Q.poolOp s.obj.toPages o) :
    Q.toPool (⟨s.obj.toPages, Function.update s.obj.op t o'⟩ : FineLockPEQueue.State τ) =
      Q.toPool s.obj := by
  refine toPool_stutter h hps ho (fun _ _ => rfl) (fun i _ => ?_) (fun _ _ _ => rfl) hop
  rw [free_update_iff, free_iff t, ho, htr]

/-- A store to a page in hand. -/
theorem toPool_store (h : Owned D s) (hps : 0 < Q.pageSize) (ho : s.obj.op t = o) {pe : PageEntry}
    {j : Nat} (hj : j ∈ holding D s t) (htr : ∀ i, ¬ Transient o i) (htr' : ∀ i, ¬ Transient o' i)
    (hop : Q.poolOp (s.obj.toPages.setEntry j pe) o' = Q.poolOp s.obj.toPages o) :
    Q.toPool (⟨s.obj.toPages.setEntry j pe, Function.update s.obj.op t o'⟩ :
      FineLockPEQueue.State τ) = Q.toPool s.obj := by
  have hne {i : Nat} (hij : i ≠ j) : (s.obj.toPages.setEntry j pe).pages i = s.obj.pages i := by
    simp [Pages.setEntry, hij]
  refine toPool_stutter h hps ho (fun i hi => hne fun hij => hi (hij ▸ hj)) (fun i _ => ?_)
    (fun i _ hf => hne ?_) hop
  · rw [free_update_iff, free_iff t, ho]
    simp only [htr, htr']
    rfl
  · rintro rfl
    exact not_free_of_mem h hj (by rw [ho]; exact htr i) hf

/-- **One step of a call** is a step of the pool, or leaves it as it is. -/
theorem toPool_microStep (h : Owned D s) (hst : Stored s)
    (hps : 0 < Q.pageSize) (ho : s.obj.op t = o)
    (hm : FineLockPEQueue.MicroStep Q s.obj.toPages o p o') :
    Q.toPool (⟨p, Function.update s.obj.op t o'⟩ : FineLockPEQueue.State τ) = Q.toPool s.obj ∨
      PoolStep Q.qSize Q.pageSize (Q.toPool s.obj) t
        (Q.toPool (⟨p, Function.update s.obj.op t o'⟩ : FineLockPEQueue.State τ)) := by
  have hsound := h.sound t
  rw [ho] at hsound
  have hopt : (Q.toPool s.obj).op t = Q.poolOp s.obj.toPages o := by
    simp [FineLockPEQueue.toPool, ho]
  have hops := op_update h hps (t := t) (p := p) (o := o')
  cases hm with
  | skip hlt hadv hno => exact .inl (toPool_quiet h hps ho (fun _ => Iff.rfl) rfl)
  | look hlt hadv htag => exact .inl (toPool_quiet h hps ho (fun _ => Iff.rfl) rfl)
  | lookTag hlt hadv => exact .inl (toPool_quiet h hps ho (fun _ => Iff.rfl) rfl)
  | @exhausted c hge =>
      right
      let s' : FineLockPEQueue.State τ :=
        ⟨s.obj.toPages, Function.update s.obj.op t (.done (.get c.kind c.tag) (.entry none))⟩
      have hslot : (Q.toPool s').slot = (Q.toPool s.obj).slot := by
        refine slot_congr (fun i _ => ?_) (fun _ _ _ => rfl)
        rw [free_update_iff, free_iff t, ho]
        rfl
      rw [toPool_eq hslot (hops fun _ _ => rfl)]
      exact .missed hopt
  | tagHit => exact .inl (toPool_quiet h hps ho (fun _ => Iff.rfl) rfl)
  | tagMiss hno => exact .inl (toPool_quiet h hps ho (fun _ => Iff.rfl) rfl)
  | busy hl => exact .inl (toPool_quiet h hps ho (fun _ => Iff.rfl) rfl)
  | @lock c j hl =>
      refine .inl (toPool_stutter h hps ho (fun _ _ => rfl) (fun i _ => ?_) (fun _ _ _ => rfl) rfl)
      have hfree : Free (⟨s.obj.toPages.setLock j true, Function.update s.obj.op t (.recheck c j)⟩ :
          FineLockPEQueue.State τ) j := free_update_iff.mpr (.inr (.inl rfl))
      refine free_iff_of_page (.inl hl) hfree (fun i hij => setLock_of_ne hij) (fun i hij => ?_) i
      rw [ho]
      exact iff_of_false (Ne.symm hij) id
  | @confirm c j hk =>
      right
      have hmem : j ∈ holding D s t := Transient.mem_holding (by rw [ho]; rfl)
      let s' : FineLockPEQueue.State τ := ⟨s.obj.toPages, Function.update s.obj.op t (.copyOut c j)⟩
      have hout : (Q.toPool s').slot j = none := by
        refine if_neg fun hc => ?_
        rcases free_update_iff.mp hc.2 with hl | htr | ⟨t', ht, ht'⟩
        · simp [h.exclusive.locked_of_mem hmem] at hl
        · exact htr.elim
        · exact ht (h.exclusive.owner_unique (Transient.mem_holding (D := D) ht') hmem)
      have hslot : (Q.toPool s').slot = Function.update (Q.toPool s.obj).slot j none := by
        refine slot_update (fun i _ hij => ?_) (fun _ _ _ => rfl) hout
        rw [free_update_iff, free_iff t, ho]
        exact or_congr Iff.rfl (or_congr (iff_of_false id (Ne.symm hij)) Iff.rfl)
      rw [toPool_eq hslot (hops fun _ _ => rfl)]
      refine .found hopt ?_ ?_
      · have hfree : Free s.obj j := .inr ⟨t, by rw [ho]; rfl⟩
        rw [FineLockPEQueue.copyOut_pattern, ← PageKind.holds_iff.mp hk]
        exact if_pos ⟨hsound, hfree⟩
      · rw [FineLockPEQueue.copyOut_offset, h.offset j hsound]
  | refute hk => exact .inl (toPool_quiet h hps ho (fun _ => Iff.rfl) rfl)
  | @giveUp c j =>
      refine .inl (toPool_stutter h hps ho (fun _ _ => rfl) (fun i _ => ?_) (fun _ _ _ => rfl) rfl)
      refine free_iff_of_page (.inr ⟨t, by rw [ho]; rfl⟩)
        (free_update_iff.mpr (.inl (by simp [Pages.setLock])))
        (fun i hij => setLock_of_ne hij) (fun i hij => ?_) i
      rw [ho]
      exact iff_of_false id (Ne.symm hij)
  | copyOut => exact .inl (toPool_quiet h hps ho (fun _ => Iff.rfl) rfl)
  | @copyInEmpty pe j =>
      have hmem := h.mem_holding_of_put hps ho rfl hsound.2.1 fun _ => rfl
      exact .inl (toPool_store h hps ho hmem (fun _ => id) (fun _ => id) rfl)
  | @copyInValid pe j =>
      have hmem := h.mem_holding_of_put hps ho rfl hsound.2.1 fun _ => rfl
      exact .inl (toPool_store h hps ho hmem (fun _ => id) (fun _ => id) rfl)
  | @clear pe j =>
      have hmem := h.mem_holding_of_put hps ho rfl hsound.2 fun _ => rfl
      exact .inl (toPool_store h hps ho hmem (fun _ => id) (fun _ => id) rfl)
  | @unlock kind pe j =>
      right
      obtain ⟨hj, hoff, hk⟩ := hsound
      have hmem := h.mem_holding_of_put hps ho rfl hoff fun _ => rfl
      let s' : FineLockPEQueue.State τ :=
        ⟨s.obj.toPages.setLock j false, Function.update s.obj.op t (.done (.put kind pe) (.status true))⟩
      have hin : (Q.toPool s').slot j = some (kind, (s.obj.pages j).pattern) := by
        have hfree : Free s' j := .inl (by simp [s', Pages.setLock])
        rw [← PageKind.holds_iff.mp hk]
        exact if_pos ⟨hj, hfree⟩
      have hslot : (Q.toPool s').slot =
          Function.update (Q.toPool s.obj).slot j (some (kind, (s.obj.pages j).pattern)) := by
        refine slot_update (fun i _ hij => ?_) (fun _ _ _ => rfl) hin
        rw [free_update_iff, free_iff t, ho, setLock_of_ne hij]
        rfl
      rw [toPool_eq hslot (hops fun _ _ => rfl)]
      refine .stored hopt hj hoff (if_neg fun hc => ?_) fun hkind => ?_
      · exact not_free_of_mem h hmem (by rw [ho]; exact id) hc.2
      · subst hkind
        exact hst t pe j ho

end MicroStep

/-! ## Whole runs -/

theorem stored_of_reachable (D : Discipline C) (hps : 0 < Q.pageSize)
    (hfresh : ∀ p, init p → Fresh Q p) {s : Sys (Q.obj τ init) κ ω}
    (h : Reachable (Q.obj τ init) C s) : Stored s := by
  have hinv : Owned D s ∧ Stored s := by
    refine h.inv (I := fun s => Owned D s ∧ Stored s) ?_ ?_
    · intro s hs
      refine ⟨owned_of_initial D hfresh hs, fun t pe i ho => ?_⟩
      rw [hs.1.2 t] at ho
      cases ho
    · intro s s' hs hstep
      obtain ⟨howned, hst⟩ := hs
      refine ⟨howned.step hps hstep, ?_⟩
      -- threads other than the one that moves
      have hother {t : τ} {p : Pages} {o : Op}
          (hframe : ∀ i, i ∉ holding D s t → p.pages i = s.obj.pages i)
          (hown : ∀ pe i, o = .unlock .valid pe i → (p.pages i).pattern = pe.pattern) :
          ∀ t' pe i, Function.update s.obj.op t o t' = .unlock .valid pe i →
            (p.pages i).pattern = pe.pattern := by
        intro t' pe i ho
        by_cases ht : t' = t
        · subst ht
          rw [Function.update_self] at ho
          exact hown pe i ho
        · rw [Function.update_of_ne ht] at ho
          have hmem : i ∈ holding D s t' := howned.mem_of_reads hps (by rw [ho]; rfl)
          rw [hframe i fun hmem' => ht (howned.exclusive.owner_unique hmem hmem')]
          exact hst t' pe i ho
      cases hstep with
      | @call t _ _ hcall h =>
          obtain ⟨hidle, random64, -, rfl⟩ := h
          refine hother (t := t) (fun _ _ => rfl) fun pe i ho => ?_
          rename_i r
          cases r with
          | get kind tag =>
              simp only [FineLockPEQueue.enter] at ho
              split at ho <;> cases ho
          | put kind pe' =>
              simp only [FineLockPEQueue.enter] at ho
              split at ho
              · cases ho
              · split at ho <;> cases ho
      | @obj t _ h =>
          obtain ⟨p, o, hm, rfl⟩ := h
          have hm' := FineLockPEQueue.microStep_cases hm
          refine hother (t := t) (howned.frame hps rfl hm') fun pe i ho => ?_
          subst ho
          generalize hop : s.obj.op t = o at hm'
          cases hm' with
          | copyInValid => simp [Pages.setEntry]
      | @ret t _ _ h =>
          obtain ⟨r, -, rfl⟩ := h
          exact hother (t := t) (fun _ _ => rfl) fun pe i ho => by cases ho
      | loc hcall h => exact hst
      | env h => exact hst
  exact hinv.2

/-- The pool of arrays in which no page is locked. -/
def initSlots (Q : FineLockPEQueue) (p : Pages) (i : Nat) : Option Slot :=
  if i < Q.qSize then some ((p.pages i).kind, (p.pages i).pattern) else none

/-- **Refinement.** Every behaviour of the queue is one of the pool. -/
noncomputable def simulation (D : Discipline C) (hps : 0 < Q.pageSize)
    (hfresh : ∀ p, init p → Fresh Q p) :
    Simulation (Q.obj τ init)
      (poolObj Q.qSize Q.pageSize τ fun slot => ∃ p, init p ∧ slot = initSlots Q p) C
      (fun s => Owned D s ∧ Stored s) where
  map := Q.toPool
  init a h := by
    refine ⟨⟨a.toPages, h.1, ?_⟩, fun t => ?_⟩
    · funext i
      simp only [FineLockPEQueue.toPool, initSlots]
      by_cases hi : i < Q.qSize
      · rw [if_pos ⟨hi, .inl (hfresh _ h.1 i hi).1⟩, if_pos hi]
      · rw [if_neg fun hc => hi hc.1, if_neg hi]
    · simp [FineLockPEQueue.toPool, h.2 t, FineLockPEQueue.poolOp]
  call {s t r o} h hcall ho := by
    obtain ⟨howned, -⟩ := h
    obtain ⟨hidle, random64, -, rfl⟩ := ho
    refine ⟨by simp [FineLockPEQueue.toPool, hidle, FineLockPEQueue.poolOp],
      Q.poolOp s.obj.toPages (Q.enter random64 r), ?_, ?_⟩
    · refine toPool_eq (slot_congr (fun i _ => ?_) fun _ _ _ => rfl)
        (op_update howned hps fun _ _ => rfl)
      rw [free_update_iff, free_iff t, hidle]
      cases r with
      | get kind tag =>
          simp only [FineLockPEQueue.enter]
          split <;> rfl
      | put kind pe =>
          simp only [FineLockPEQueue.enter]
          split
          · rfl
          · split <;> rfl
    · cases r with
      | get kind tag =>
          simp only [FineLockPEQueue.enter]
          split
          · exact .inr ⟨.entry none, rfl, rfl⟩
          · exact .inl rfl
      | put kind pe =>
          obtain ⟨i, hi, hoff⟩ := howned.aligned t _ (D.owns hcall)
          have hidx : pe.offset / Q.pageSize = i := by
            rw [hoff]
            exact Nat.mul_div_cancel _ hps
          simp only [FineLockPEQueue.enter, hidx, if_pos hi]
          split
          · next hcheck =>
            have hzero : ¬ Q.qSize = 0 := by omega
            refine .inr ⟨.status false, ?_, rfl⟩
            simpa [Refused, hzero, PageKind.holds] using hcheck
          · exact .inl rfl
  step {s t o} h ho := by
    obtain ⟨p, o', hm, rfl⟩ := ho
    exact toPool_microStep h.1 h.2 hps rfl (FineLockPEQueue.microStep_cases hm)
  ret {s t a o} h ho := by
    obtain ⟨r, hdone, rfl⟩ := ho
    refine ⟨r, by simp [FineLockPEQueue.toPool, hdone, FineLockPEQueue.poolOp], ?_⟩
    refine toPool_eq (slot_congr (fun i _ => ?_) fun _ _ _ => rfl)
      (op_update h.1 hps fun _ _ => rfl)
    rw [free_update_iff, free_iff t, hdone]
    rfl

/-- The pool the queue stands for is reached by the same workers. -/
theorem pool_reachable (D : Discipline C) (hps : 0 < Q.pageSize)
    (hfresh : ∀ p, init p → Fresh Q p) {s : Sys (Q.obj τ init) κ ω}
    (h : Reachable (Q.obj τ init) C s) :
    Reachable (poolObj Q.qSize Q.pageSize τ fun slot => ∃ p, init p ∧ slot = initSlots Q p) C
      ⟨Q.toPool s.obj, s.ctl, s.world⟩ :=
  (simulation D hps hfresh).reachable (fun _ hs => ⟨owned_of_reachable D hps hfresh hs,
    stored_of_reachable D hps hfresh hs⟩) h

/-! ## Pages that workers hold -/

/-- The pages that thread `t` has obtained and not given back. A page that its search has
locked and not confirmed is not among them. -/
def taken (D : Discipline C) (s : Sys (Q.obj τ init) κ ω) (t : τ) : Multiset Nat :=
  match s.obj.op t with
  | .recheck _ _ | .giveUp _ _ => (D.held (s.ctl t)).map (· / Q.pageSize)
  | _ => holding D s t

theorem mem_holding_iff_taken {s : Sys (Q.obj τ init) κ ω} {t : τ} {i : Nat} :
    i ∈ holding D s t ↔ Transient (s.obj.op t) i ∨ i ∈ taken D s t := by
  unfold taken holding
  cases ho : s.obj.op t with
  | recheck c j => simp [FineLockPEQueue.inHand, Transient, eq_comm]
  | giveUp c j => simp [FineLockPEQueue.inHand, Transient, eq_comm]
  | _ => simp [Transient]

/-- **A page is in the pool exactly when no worker holds it.** -/
theorem free_iff_untaken {s : Sys (Q.obj τ init) κ ω} (h : Owned D s) {i : Nat} (hi : i < Q.qSize) :
    Free s.obj i ↔ ∀ t, i ∉ taken D s t := by
  constructor
  · intro hf t ht
    refine not_free_of_mem h (mem_holding_iff_taken.mpr (.inr ht)) (fun htr => ?_) hf
    -- the page would be twice in the hands of one thread
    have hnodup := h.exclusive.nodup t
    unfold taken at ht
    unfold holding at hnodup
    cases ho : s.obj.op t with
    | recheck c j =>
        rw [ho] at htr ht hnodup
        obtain rfl : j = i := htr
        exact (Multiset.nodup_cons.mp hnodup).1 ht
    | giveUp c j =>
        rw [ho] at htr ht hnodup
        obtain rfl : j = i := htr
        exact (Multiset.nodup_cons.mp hnodup).1 ht
    | _ =>
        rw [ho] at htr
        exact htr.elim
  · intro hall
    by_contra hf
    have hlock : s.obj.pagelocks i = true := by
      cases hl : s.obj.pagelocks i with
      | true => rfl
      | false => exact absurd (Or.inl hl) hf
    obtain ⟨t, ht⟩ := (h.exclusive.locked_iff hi).mp hlock
    rcases mem_holding_iff_taken.mp ht with htr | htaken
    · exact hf (.inr ⟨t, htr⟩)
    · exact hall t htaken

end

end StressAppTest.FineLock
