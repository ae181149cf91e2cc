import Mathlib.Algebra.BigOperators.Group.Finset.Basic
import StressAppTest.Network.ListenerSteps

/-!
# The result of the listener

`Ledger` says what the results of the threads stand for at each place: a slave that has left its loop has
counted the pages that it has sent back, its status says whether it has met a fault, and the listener has
added up the slaves that it has joined.

* `listener_result`: when `NetworkListenThread::Work` returns, every slave has ended and has been deleted,
  the sockets have been closed, the pages are those of all slaves, and the status is true if and only if
  nothing has gone wrong.
-/

namespace StressAppTest.Network.Listener

open Descriptors GuardedHandle

/-- The slave that has met a fault. -/
def Fault.slave : Fault → Option Nat
  | .memalign i | .noSocket i => some i
  | _ => none

/-- Slave `i` has met a fault. -/
def Faulty (faults : List Fault) (i : Nat) : Prop := ∃ f ∈ faults, f.slave = some i

/-- The number of slaves that have been collected. -/
def ListenPc.collected (workers : Nat) : ListenPc → Nat
  | .join i | .close i _ | .collect i => i
  | .delete _ _ | .closeSocket | .done => workers
  | _ => 0

/-- What the fields of a slave stand for. -/
def Child.Booked (c : Child) (faulty : Prop) : Prop :=
  match c.pc with
  | .unspawned | .start | .memalign _ => c.reflected = 0 ∧ c.pagesCopied = 0 ∧ ¬ faulty
  | .receiving _ _ loops | .sending _ _ loops => c.reflected = loops ∧ ¬ faulty
  | .closing _ | .removeSelf | .exited => c.pagesCopied = c.reflected ∧ (c.status = true ↔ ¬ faulty)

/-- The slaves that have not been collected yet have all the faults. -/
def Clean (faults : List Fault) (collected : Nat) : Prop :=
  ∀ f ∈ faults, ∃ i, f.slave = some i ∧ collected ≤ i

structure Ledger (s : Server) : Prop where
  child : ∀ i, (s.child i).Booked (Faulty s.faults i)
  pages : s.pagesCopied = ∑ i ∈ Finset.range (s.pc.collected s.workers), (s.child i).reflected
  result : s.result = true ↔ Clean s.faults (s.pc.collected s.workers)
  bound : ∀ f ∈ s.faults, ∀ i, f.slave = some i → i < s.workers
  status : s.pc = .done → s.status = s.result

/-! ## Slaves -/

/-- A slave that has been collected has been joined. -/
theorem exited_of_collected {pc : ListenPc} {workers i : Nat} {discarded shut : Bool} {c : Child}
    (hi : i < workers) (hcollected : i < pc.collected workers)
    (h : (pc.stage workers discarded i).Allows c shut) : c.pc = .exited := by
  unfold ListenPc.stage at h
  rw [if_pos hi] at h
  cases pc with
  | join j =>
      simp only [if_pos (show i < j from hcollected)] at h
      exact h.1
  | close j place =>
      simp only [if_pos (show i < j from hcollected)] at h
      exact h.1
  | collect j =>
      simp only [if_pos (Nat.le_of_lt (show i < j from hcollected))] at h
      exact h.1
  | delete j place =>
      simp only at h
      split at h
      · exact h.1
      · split at h
        · exact h.1
        · exact h.1
  | closeSocket | done => exact h.1
  | _ => cases hcollected

section Slave

variable {s : Server} {i : Nat}

/-- A slave that still runs has not been collected. -/
theorem Inv.running_index (h : Inv s) (hunspawned : (s.child i).pc ≠ .unspawned)
    (hexited : (s.child i).pc ≠ .exited) : i < s.workers ∧ s.pc.collected s.workers ≤ i := by
  obtain ⟨hkept, hcreated⟩ := h.kept hunspawned
  have hlt : i < s.workers := by
    by_contra hlt
    have hallows := hkept.allows
    rw [Server.stage] at hallows hcreated
    unfold ListenPc.stage at hallows hcreated
    rw [if_neg hlt] at hallows hcreated
    split at hallows
    · next heq =>
      rw [if_pos heq] at hcreated
      split at hallows
      · exact hallows
      · exact hunspawned hallows.1
      · exact hunspawned hallows.1
      · split at hallows
        · exact hunspawned hallows.1
        · exact hallows
    · exact hallows
  refine ⟨hlt, ?_⟩
  by_contra hcollected
  exact hexited (exited_of_collected hlt (by omega) hkept.allows)

theorem faulty_append {faults : List Fault} {f : Fault} {j : Nat} :
    Faulty (faults ++ [f]) j ↔ Faulty faults j ∨ f.slave = some j := by
  unfold Faulty
  simp [or_and_right, exists_or]

theorem clean_append {faults : List Fault} {f : Fault} {n : Nat} :
    Clean (faults ++ [f]) n ↔ Clean faults n ∧ ∃ j, f.slave = some j ∧ n ≤ j := by
  unfold Clean
  simp [or_imp, forall_and]

/-- A slave goes on, and may meet a fault. -/
theorem Ledger.slave_moved {s' : Server} (h : Ledger s) (hi : i < s.workers)
    (hcollected : s.pc.collected s.workers ≤ i)
    (hrest : s'.pc = s.pc ∧ s'.workers = s.workers ∧ s'.result = s.result ∧ s'.status = s.status ∧
      s'.pagesCopied = s.pagesCopied)
    (hother : ∀ j, j ≠ i → s'.child j = s.child j)
    (hchild : (s'.child i).Booked (Faulty s'.faults i))
    (hfaults : s'.faults = s.faults ∨ ∃ f, Fault.slave f = some i ∧ s'.faults = s.faults ++ [f]) :
    Ledger s' := by
  obtain ⟨hpc, hworkers, hresult, hstatus, hpages⟩ := hrest
  have hfaulty (j : Nat) (hj : j ≠ i) : Faulty s'.faults j ↔ Faulty s.faults j := by
    rcases hfaults with hfaults | ⟨f, hf, hfaults⟩
    · rw [hfaults]
    · rw [hfaults, faulty_append, hf]
      simp [Ne.symm hj]
  have hclean : Clean s'.faults (s.pc.collected s.workers) ↔
      Clean s.faults (s.pc.collected s.workers) := by
    rcases hfaults with hfaults | ⟨f, hf, hfaults⟩
    · rw [hfaults]
    · rw [hfaults, clean_append]
      exact ⟨And.left, fun hold => ⟨hold, i, hf, hcollected⟩⟩
  refine ⟨?_, ?_, ?_, ?_, ?_⟩
  · intro j
    by_cases hj : j = i
    · rw [hj]
      exact hchild
    · rw [hother j hj, propext (hfaulty j hj)]
      exact h.child j
  · rw [hpages, hpc, hworkers, h.pages]
    apply Finset.sum_congr rfl
    intro j hj
    rw [hother j (by have := Finset.mem_range.mp hj; omega)]
  · rw [hresult, hpc, hworkers, hclean]
    exact h.result
  · rw [hworkers]
    rcases hfaults with hfaults | ⟨f, hf, hfaults⟩
    · rw [hfaults]
      exact h.bound
    · rw [hfaults]
      intro g hg j hj
      rcases List.mem_append.mp hg with hg | hg
      · exact h.bound g hg j hj
      · rw [List.mem_singleton.mp hg, hf] at hj
        obtain rfl := Option.some.inj hj
        exact hi
  · rw [hpc, hstatus, hresult]
    exact h.status

/-- Only the fields of slave `i` have changed. -/
theorem Ledger.setChild (h : Ledger s) (hi : i < s.workers ∧ s.pc.collected s.workers ≤ i) {c : Child}
    (hchild : c.Booked (Faulty s.faults i)) : Ledger (s.setChild i c) := by
  refine h.slave_moved hi.1 hi.2 ⟨rfl, rfl, rfl, rfl, rfl⟩ (fun j hj => Function.update_of_ne hj _ _) ?_
    (Or.inl rfl)
  simp only [Server.setChild, Function.update_self]
  exact hchild

/-- The slave meets a fault and ends. -/
theorem Ledger.fault (h : Ledger s) (hi : i < s.workers ∧ s.pc.collected s.workers ≤ i) {f : Fault}
    (hf : f.slave = some i) {c : Child} (hpc : c.pc = .removeSelf ∨ c.pc = .closing .lock)
    (hpages : c.pagesCopied = c.reflected) (hstatus : c.status = false) :
    Ledger { s.setChild i c with faults := s.faults ++ [f] } := by
  refine h.slave_moved hi.1 hi.2 ⟨rfl, rfl, rfl, rfl, rfl⟩ (fun j hj => Function.update_of_ne hj _ _) ?_
    (Or.inr ⟨f, hf, rfl⟩)
  have hfaulty : Faulty (s.faults ++ [f]) i := faulty_append.mpr (Or.inr hf)
  simp only [Server.setChild, Function.update_self]
  unfold Child.Booked
  rcases hpc with hpc | hpc
  · rw [hpc, hstatus]
    exact ⟨hpages, by simpa using hfaulty⟩
  · rw [hpc, hstatus]
    exact ⟨hpages, by simpa using hfaulty⟩

/-- A system call changes none of the fields. -/
theorem Ledger.use (h : Ledger s) (way : Way) (meant : File) (fd : Nat) : Ledger (s.use way meant fd) :=
  ⟨h.child, h.pages, h.result, h.bound, h.status⟩

/-- **A step of a slave.** -/
theorem Ledger.slaveStep (h : Ledger s) (hinv : Inv s) {pageLength : Nat} {ignored : Bool} {a : Answer}
    {s' : Server} (hs : s.slaveStep pageLength ignored i a = some s') : Ledger s' := by
  have hbooked := h.child i
  unfold Child.Booked at hbooked
  have hindex (hunspawned : (s.child i).pc ≠ .unspawned) (hexited : (s.child i).pc ≠ .exited) :=
    hinv.running_index hunspawned hexited
  unfold Server.slaveStep at hs
  split at hs
  · next hpc =>
    have hi := hindex (by rw [hpc]; nofun) (by rw [hpc]; nofun)
    rw [hpc] at hbooked
    split at hs
    · obtain rfl := Option.some.inj hs
      exact h.fault hi rfl (Or.inl rfl) (hbooked.2.1.trans hbooked.1.symm) rfl
    · obtain rfl := Option.some.inj hs
      exact h.setChild hi hbooked
  · next sock hpc =>
    have hi := hindex (by rw [hpc]; nofun) (by rw [hpc]; nofun)
    rw [hpc] at hbooked
    obtain rfl := Option.some.inj hs
    exact h.setChild hi ⟨hbooked.1, hbooked.2.2⟩
  · next sock hpc =>
    have hi := hindex (by rw [hpc]; nofun) (by rw [hpc]; nofun)
    rw [hpc] at hbooked
    obtain rfl := Option.some.inj hs
    exact h.fault hi rfl (Or.inr rfl) (hbooked.2.1.trans hbooked.1.symm) rfl
  · next sock n loops hpc =>
    have hi := hindex (by rw [hpc]; nofun) (by rw [hpc]; nofun)
    rw [hpc] at hbooked
    have hfinish : Child.Booked { s.child i with
        pagesCopied := loops, status := true, pc := .closing .lock } (Faulty s.faults i) :=
      ⟨hbooked.1.symm, iff_of_true rfl hbooked.2⟩
    split at hs
    · obtain rfl := Option.some.inj hs
      exact h.setChild hi hbooked
    · split at hs
      · split at hs
        · obtain rfl := Option.some.inj hs
          exact (h.use ..).setChild hi hbooked
        · cases hs
      · obtain rfl := Option.some.inj hs
        exact (h.use ..).setChild hi hfinish
      · cases hs
  · next sock n loops hpc =>
    have hi := hindex (by rw [hpc]; nofun) (by rw [hpc]; nofun)
    rw [hpc] at hbooked
    have hfinish : Child.Booked { s.child i with
        pagesCopied := loops, status := true, pc := .closing .lock } (Faulty s.faults i) :=
      ⟨hbooked.1.symm, iff_of_true rfl hbooked.2⟩
    split at hs
    · obtain rfl := Option.some.inj hs
      exact h.setChild hi ⟨congrArg (· + 1) hbooked.1, hbooked.2⟩
    · split at hs
      · split at hs
        · obtain rfl := Option.some.inj hs
          exact (h.use ..).setChild hi hbooked
        · cases hs
      · split at hs
        · cases hs
        · obtain rfl := Option.some.inj hs
          exact (h.use ..).setChild hi hfinish
      · split at hs
        · obtain rfl := Option.some.inj hs
          exact (h.use ..).setChild hi hfinish
        · obtain rfl := Option.some.inj hs
          have huse := h.use .send (.connection i) sock
          exact ⟨huse.child, huse.pages, huse.result, huse.bound, huse.status⟩
      · cases hs
  · next place _ hpc =>
    have hi := hindex (by rw [hpc]; nofun) (by rw [hpc]; nofun)
    rw [hpc] at hbooked
    obtain ⟨⟨s₁, next⟩, hsection, rfl⟩ := Option.map_eq_some_iff.mp hs
    obtain ⟨hkept, -⟩ := hinv.kept (by rw [hpc]; nofun)
    have hparty : places (s.stage i) (s.child i).pc .slave = some (true, place) := by
      rw [hpc]
      rfl
    obtain ⟨hsec, -⟩ := section_spec hinv.kernel hinv.sound hkept.guarded hparty hsection
    refine h.slave_moved hi.1 hi.2 ?_ ?_ ?_ (Or.inl (by rw [hsec.rest]; rfl))
    · rw [hsec.rest]
      exact ⟨rfl, rfl, rfl, rfl, rfl⟩
    · intro j hj
      exact (Function.update_of_ne hj _ _).trans (hsec.child j hj)
    · have hfaults : (s₁.setSlave i (SlavePc.closeOwned next)).faults = s.faults := by
        rw [hsec.rest]
        rfl
      have hchild : (s₁.setSlave i (SlavePc.closeOwned next)).child i =
          { s₁.child i with pc := SlavePc.closeOwned next } := Function.update_self ..
      rw [hchild, hfaults, hsec.same]
      cases next <;> exact hbooked
  · next hpc =>
    have hi := hindex (by rw [hpc]; nofun) (by rw [hpc]; nofun)
    rw [hpc] at hbooked
    obtain rfl := Option.some.inj hs
    exact h.setChild hi hbooked
  · cases hs

end Slave

/-! ## The listener -/

section Listener

variable {s : Server}

theorem collected_deleteFrom (s : Server) (i : Nat) :
    (s.deleteFrom i).collected s.workers = s.workers := by
  unfold Server.deleteFrom
  split <;> rfl

theorem collected_joinFrom {i : Nat} (hi : i ≤ s.workers) : (s.joinFrom i).collected s.workers = i := by
  unfold Server.joinFrom
  split
  · rfl
  · rw [collected_deleteFrom]
    omega

theorem collected_shutdownFrom (s : Server) (i : Nat) :
    (s.shutdownFrom i).collected s.workers = 0 := by
  unfold Server.shutdownFrom
  split
  · rfl
  · exact collected_joinFrom (Nat.zero_le _)

theorem Going.not_done {workers : Nat} {pc : ListenPc} (h : Going workers pc) : pc ≠ .done := by
  intro hpc
  have hsocket := h.socket 0 .unborn
  rw [hpc] at hsocket
  exact absurd (hsocket.mp (Or.inl rfl)) nofun

/-- The results stay as they are. -/
theorem Ledger.keep {s' : Server} (h : Ledger s)
    (hrest : s'.pagesCopied = s.pagesCopied ∧ s'.result = s.result ∧ s'.faults = s.faults ∧
      s'.workers = s.workers)
    (hcollected : s'.pc.collected s.workers = s.pc.collected s.workers)
    (hchild : ∀ i, (s'.child i).pc = (s.child i).pc ∧ (s'.child i).status = (s.child i).status ∧
      (s'.child i).pagesCopied = (s.child i).pagesCopied ∧
      (s'.child i).reflected = (s.child i).reflected)
    (hstatus : s'.pc = .done → s'.status = s'.result) : Ledger s' := by
  obtain ⟨hpages, hresult, hfaults, hworkers⟩ := hrest
  refine ⟨?_, ?_, ?_, ?_, hstatus⟩
  · intro i
    obtain ⟨hpc, hstat, hcopied, hreflected⟩ := hchild i
    have hbooked := h.child i
    unfold Child.Booked at hbooked ⊢
    rw [hpc, hstat, hcopied, hreflected, hfaults]
    exact hbooked
  · rw [hpages, hworkers, hcollected, h.pages]
    apply Finset.sum_congr rfl
    intro i _
    rw [(hchild i).2.2.2]
  · rw [hresult, hfaults, hworkers, hcollected]
    exact h.result
  · rw [hfaults, hworkers]
    exact h.bound

/-- The listener goes to another place. -/
theorem Ledger.setPc (h : Ledger s) {pc : ListenPc}
    (hcollected : pc.collected s.workers = s.pc.collected s.workers) (hpc : pc ≠ .done) :
    Ledger (s.setPc pc) :=
  h.keep ⟨rfl, rfl, rfl, rfl⟩ hcollected (fun _ => ⟨rfl, rfl, rfl, rfl⟩) fun hdone => absurd hdone hpc

/-- A fault of the listener, which has not collected any slave yet. -/
theorem Ledger.listener_fault (h : Ledger s) {s' : Server} {f : Fault} (hf : f.slave = none)
    (hrest : s'.child = s.child ∧ s'.result = false ∧ s'.faults = s.faults ++ [f] ∧
      s'.workers = s.workers)
    (hcollected : s.pc.collected s.workers = 0) (hcollected' : s'.pc.collected s.workers = 0)
    (hpages : s'.pagesCopied = s.pagesCopied ∨ s'.pagesCopied = 0)
    (hstatus : s'.pc = .done → s'.status = s'.result) : Ledger s' := by
  obtain ⟨hchild, hresult, hfaults, hworkers⟩ := hrest
  have hold := h.pages
  rw [hcollected, Finset.sum_range_zero] at hold
  refine ⟨?_, ?_, ?_, ?_, hstatus⟩
  · intro i
    have hfaulty : Faulty (s.faults ++ [f]) i ↔ Faulty s.faults i := by
      rw [faulty_append, hf]
      simp
    rw [hchild, hfaults, propext hfaulty]
    exact h.child i
  · rw [hworkers, hcollected', Finset.sum_range_zero]
    rcases hpages with hpages | hpages
    · exact hpages.trans hold
    · exact hpages
  · rw [hresult, hfaults, clean_append, hf]
    simp
  · rw [hfaults, hworkers]
    intro g hg i hi
    rcases List.mem_append.mp hg with hg | hg
    · exact h.bound g hg i hi
    · rw [List.mem_singleton.mp hg, hf] at hi
      cases hi

/-- The fields of the slaves in a section of the listener. -/
theorem Inv.sectioned_fields (h : Inv s) {inside : Section → ListenPc} {i : Nat} {closing : Bool}
    {stage : Section → Stage} {place : Section} {s₁ : Server} {next : Option Section}
    (hin : Inside inside s.workers s.discarded i closing stage) (hpc : s.pc = inside place)
    (hs : s.section_ i .listener closing place = some (s₁, next)) :
    (s₁.pagesCopied = s.pagesCopied ∧ s₁.result = s.result ∧ s₁.faults = s.faults ∧
      s₁.workers = s.workers) ∧
    ∀ j, (s₁.child j).pc = (s.child j).pc ∧ (s₁.child j).status = (s.child j).status ∧
      (s₁.child j).pagesCopied = (s.child j).pagesCopied ∧
      (s₁.child j).reflected = (s.child j).reflected := by
  obtain ⟨hsec, -⟩ := h.listener_sectioned hin hpc hs
  refine ⟨?_, ?_⟩
  · rw [hsec.rest]
    exact ⟨rfl, rfl, rfl, rfl⟩
  · intro j
    by_cases hj : j = i
    · rw [hj, hsec.same]
      exact ⟨rfl, rfl, rfl, rfl⟩
    · rw [hsec.child j hj]
      exact ⟨rfl, rfl, rfl, rfl⟩

/-- A new slave. -/
theorem Ledger.spawn (h : Ledger s) {newsock : Nat} (hpc : s.pc = .spawn newsock) (created : Bool) :
    Ledger (let s := s.setChild s.workers (newChild newsock created)
      if created then { s with pc := .loop, workers := s.workers + 1 }
      else s.setPc (.unspawned .lock)) := by
  have hclean : ¬ Faulty s.faults s.workers := by
    rintro ⟨f, hf, hslave⟩
    exact absurd (h.bound f hf _ hslave) (Nat.lt_irrefl _)
  have hchild (i : Nat) :
      ((s.setChild s.workers (newChild newsock created)).child i).Booked (Faulty s.faults i) := by
    by_cases hi : i = s.workers
    · subst hi
      simp only [Server.setChild, Function.update_self]
      cases created <;> exact ⟨rfl, rfl, hclean⟩
    · simp only [Server.setChild, Function.update_of_ne hi]
      exact h.child i
  have hpages := h.pages
  have hresult := h.result
  rw [hpc] at hpages hresult
  cases created with
  | true => exact ⟨hchild, hpages, hresult, fun f hf i hi => Nat.lt_succ_of_lt (h.bound f hf i hi), by simp⟩
  | false => exact ⟨hchild, hpages, hresult, h.bound, fun hdone => by cases hdone⟩

/-- The listener adds a slave up. -/
theorem Ledger.collect (h : Ledger s) (hinv : Inv s) {i : Nat} (hpc : s.pc = .collect i) :
    Ledger { s with
      result := s.result && (s.child i).status
      pagesCopied := s.pagesCopied + (s.child i).pagesCopied
      pc := s.joinFrom (i + 1) } := by
  have hi : i < s.workers := hinv.index_of hpc
  have hexited : (s.child i).pc = .exited := by
    have hstage : s.stage i = .reaped := by
      rw [Server.stage, hpc]
      simp [ListenPc.stage, hi]
    have hslave := hinv.slave i
    rw [hstage] at hslave
    exact (hslave.kept rfl).allows.1
  have hbooked := h.child i
  unfold Child.Booked at hbooked
  rw [hexited] at hbooked
  obtain ⟨hcopied, hstatus⟩ := hbooked
  have hpages := h.pages
  have hresult := h.result
  rw [hpc] at hpages hresult
  have hcollected : (s.joinFrom (i + 1)).collected s.workers = i + 1 := collected_joinFrom hi
  refine ⟨h.child, ?_, ?_, h.bound, ?_⟩
  · change s.pagesCopied + (s.child i).pagesCopied = ∑ j ∈ Finset.range ((s.joinFrom (i + 1)).collected
      s.workers), (s.child j).reflected
    rw [hcollected, Finset.sum_range_succ, hpages, hcopied]
    rfl
  · change (s.result && (s.child i).status) = true ↔ Clean s.faults ((s.joinFrom (i + 1)).collected
      s.workers)
    rw [hcollected, Bool.and_eq_true, hresult, hstatus]
    constructor
    · rintro ⟨hclean, hfaulty⟩ f hf
      obtain ⟨j, hj, hle⟩ := hclean f hf
      refine ⟨j, hj, ?_⟩
      have hne : i ≠ j := fun heq => hfaulty ⟨f, hf, heq ▸ hj⟩
      change i ≤ j at hle
      omega
    · intro hclean
      refine ⟨?_, ?_⟩
      · intro f hf
        obtain ⟨j, hj, hle⟩ := hclean f hf
        exact ⟨j, hj, Nat.le_of_succ_le hle⟩
      · rintro ⟨f, hf, hslave⟩
        obtain ⟨j, hj, hle⟩ := hclean f hf
        rw [hslave] at hj
        obtain rfl := Option.some.inj hj
        omega
  · intro hdone
    exact absurd hdone (going_joinFrom s (i + 1)).not_done

/-- A section of the listener goes on. -/
theorem Ledger.section_ (h : Ledger s) (hinv : Inv s) {inside : Section → ListenPc} {i : Nat}
    {closing : Bool} {stage : Section → Stage} {place place' : Section} {s₁ : Server}
    (hin : Inside inside s.workers s.discarded i closing stage) (hpc : s.pc = inside place)
    (hs : s.section_ i .listener closing place = some (s₁, some place'))
    (hcollected : (inside place').collected s.workers = (inside place).collected s.workers)
    (hdone : inside place' ≠ .done) : Ledger (s₁.setPc (inside place')) := by
  obtain ⟨hrest, hchild⟩ := hinv.sectioned_fields hin hpc hs
  refine h.keep hrest ?_ hchild fun h => absurd h hdone
  rw [hpc]
  exact hcollected

/-- A deletion changes none of the results of a slave. -/
theorem deleted_fields (s : Server) (i j : Nat) :
    ((s.setChild i { s.child i with deleted := true }).child j).pc = (s.child j).pc ∧
      ((s.setChild i { s.child i with deleted := true }).child j).status = (s.child j).status ∧
      ((s.setChild i { s.child i with deleted := true }).child j).pagesCopied =
        (s.child j).pagesCopied ∧
      ((s.setChild i { s.child i with deleted := true }).child j).reflected =
        (s.child j).reflected := by
  by_cases hj : j = i
  · rw [hj]
    simp only [Server.setChild, Function.update_self]
    exact ⟨trivial, trivial, trivial, trivial⟩
  · simp only [Server.setChild, Function.update_of_ne hj]
    exact ⟨trivial, trivial, trivial, trivial⟩

/-- **A step of the listener.** -/
theorem Ledger.listenerStep (h : Ledger s) (hinv : Inv s) {a : Answer} {s' : Server}
    (hs : s.listenerStep a = some s') : Ledger s' := by
  unfold Server.listenerStep at hs
  split at hs
  · next fd hpc =>
    split at hs
    · obtain rfl := Option.some.inj hs
      exact h.keep ⟨rfl, rfl, rfl, rfl⟩ (by rw [hpc]; rfl) (fun _ => ⟨rfl, rfl, rfl, rfl⟩) nofun
    · cases hs
  · next hpc =>
    have hnone : s.workers = 0 := hinv.index_of hpc
    obtain rfl := Option.some.inj hs
    exact h.listener_fault (f := .socket) rfl ⟨rfl, rfl, rfl, rfl⟩ (by rw [hpc]; rfl) hnone (Or.inr rfl)
      fun _ => rfl
  · next hpc =>
    obtain rfl := Option.some.inj hs
    exact (h.use ..).setPc (by change _ = s.pc.collected _; rw [hpc]; rfl) nofun
  · next hpc =>
    have hnone : s.workers = 0 := hinv.index_of hpc
    obtain rfl := Option.some.inj hs
    exact h.listener_fault (f := .listen) rfl ⟨rfl, rfl, rfl, rfl⟩ (by rw [hpc]; rfl) hnone (Or.inr rfl)
      nofun
  · next ready hpc =>
    obtain rfl := Option.some.inj hs
    cases ready with
    | true => exact h.setPc (by rw [hpc]; rfl) nofun
    | false =>
        have hzero : s.pc.collected s.workers = 0 := by rw [hpc]; rfl
        exact h.setPc ((collected_shutdownFrom s 0).trans hzero.symm) (going_shutdownFrom s 0).not_done
  · next ready hpc =>
    obtain rfl := Option.some.inj hs
    cases ready with
    | true => exact (h.use ..).setPc (by change _ = s.pc.collected _; rw [hpc]; rfl) nofun
    | false => exact (h.use ..).setPc (by change _ = s.pc.collected _; rw [hpc]; rfl) nofun
  · next hpc =>
    obtain rfl := Option.some.inj hs
    exact h.use ..
  · next hpc =>
    obtain rfl := Option.some.inj hs
    exact h.listener_fault (f := .select) rfl ⟨rfl, rfl, rfl, rfl⟩ (by rw [hpc]; rfl)
      (collected_shutdownFrom s 0) (Or.inl rfl) fun hd => absurd hd (going_shutdownFrom s 0).not_done
  · next fd hpc =>
    split at hs
    · obtain rfl := Option.some.inj hs
      exact h.keep ⟨rfl, rfl, rfl, rfl⟩ (by rw [hpc]; rfl) (fun _ => ⟨rfl, rfl, rfl, rfl⟩) nofun
    · cases hs
  · next hpc =>
    obtain rfl := Option.some.inj hs
    exact h.listener_fault (f := .accept) rfl ⟨rfl, rfl, rfl, rfl⟩ (by rw [hpc]; rfl)
      (collected_shutdownFrom s 0) (Or.inr rfl) fun hd => absurd hd (going_shutdownFrom s 0).not_done
  · next newsock created hpc =>
    obtain rfl := Option.some.inj hs
    exact h.spawn hpc created
  · next place _ hpc =>
    obtain ⟨⟨s₁, next⟩, hsection, rfl⟩ := Option.map_eq_some_iff.mp hs
    have hin := inside_unspawned s.workers s.discarded
    cases next with
    | some place' => exact h.section_ hinv hin hpc hsection rfl nofun
    | none =>
        obtain ⟨hrest, hchild⟩ := hinv.sectioned_fields hin hpc hsection
        exact h.keep hrest (by rw [hpc]; rfl) hchild nofun
  · next place _ hpc =>
    obtain ⟨⟨s₁, next⟩, hsection, rfl⟩ := Option.map_eq_some_iff.mp hs
    have hin := inside_discard s.workers s.discarded
    cases next with
    | some place' => exact h.section_ hinv hin hpc hsection rfl nofun
    | none =>
        obtain ⟨hrest, hchild⟩ := hinv.sectioned_fields hin hpc hsection
        have hmiddle : Ledger (s₁.setPc s.pc) := h.keep hrest rfl hchild (by rw [hpc]; nofun)
        have hdeleted : Ledger
            { (s₁.setPc s.pc).setChild s₁.workers { s₁.child s₁.workers with deleted := true } with
              discarded := true } := by
          refine hmiddle.keep ⟨rfl, rfl, rfl, rfl⟩ rfl (deleted_fields s₁ s₁.workers) ?_
          change s.pc = _ → _
          rw [hpc]
          nofun
        have hzero : s.pc.collected s₁.workers = 0 := by rw [hpc]; rfl
        refine hdeleted.listener_fault (f := .spawn) rfl ⟨rfl, rfl, rfl, rfl⟩ hzero ?_
          (Or.inl rfl) fun hd => absurd hd (going_shutdownFrom _ 0).not_done
        exact collected_shutdownFrom
          { s₁.setChild s₁.workers { s₁.child s₁.workers with deleted := true } with discarded := true } 0
  · next i place _ hpc =>
    obtain ⟨⟨s₁, next⟩, hsection, rfl⟩ := Option.map_eq_some_iff.mp hs
    have hin := inside_shutdown (hinv.index_of hpc) s.discarded
    cases next with
    | some place' => exact h.section_ hinv hin hpc hsection rfl nofun
    | none =>
        obtain ⟨hrest, hchild⟩ := hinv.sectioned_fields hin hpc hsection
        refine h.keep hrest ?_ hchild fun hd => absurd hd (going_shutdownFrom _ _).not_done
        rw [hpc, ← hrest.2.2.2]
        exact collected_shutdownFrom s₁ (i + 1)
  · next i _ hpc =>
    split at hs
    · obtain rfl := Option.some.inj hs
      exact h.setPc (by rw [hpc]; rfl) nofun
    · cases hs
  · next i place _ hpc =>
    obtain ⟨⟨s₁, next⟩, hsection, rfl⟩ := Option.map_eq_some_iff.mp hs
    have hin := inside_close (hinv.index_of hpc) s.discarded
    cases next with
    | some place' => exact h.section_ hinv hin hpc hsection rfl nofun
    | none =>
        obtain ⟨hrest, hchild⟩ := hinv.sectioned_fields hin hpc hsection
        exact h.keep hrest (by rw [hpc]; rfl) hchild nofun
  · next i _ hpc =>
    obtain rfl := Option.some.inj hs
    exact h.collect hinv hpc
  · next i place _ hpc =>
    obtain ⟨⟨s₁, next⟩, hsection, rfl⟩ := Option.map_eq_some_iff.mp hs
    have hin := inside_delete (hinv.index_of hpc) s.discarded
    cases next with
    | some place' => exact h.section_ hinv hin hpc hsection rfl nofun
    | none =>
        obtain ⟨hrest, hchild⟩ := hinv.sectioned_fields hin hpc hsection
        have hold : Ledger (s₁.setPc s.pc) :=
          h.keep hrest rfl hchild (by rw [hpc]; nofun)
        refine hold.keep ⟨rfl, rfl, rfl, rfl⟩ ?_ (deleted_fields s₁ i) fun hd =>
          absurd hd (going_deleteFrom _ _).not_done
        change (s₁.deleteFrom (i + 1)).collected s₁.workers = s.pc.collected s₁.workers
        rw [hpc]
        exact collected_deleteFrom s₁ (i + 1)
  · next hpc =>
    obtain rfl := Option.some.inj hs
    exact h.keep ⟨rfl, rfl, rfl, rfl⟩ (by rw [hpc]; rfl) (fun _ => ⟨rfl, rfl, rfl, rfl⟩) fun _ => rfl
  · cases hs

end Listener

/-! ## Runs -/

section Runs

variable {pageLength : Nat} {ignored : Bool} {s : Server}

/-- **A step of any thread.** -/
theorem Ledger.next (h : Ledger s) (hinv : Inv s) {l : Label} {s' : Server}
    (hs : s.next pageLength ignored l = some s') : Ledger s' := by
  cases l with
  | listener a =>
      simp only [Server.next] at hs
      split at hs
      · cases hs
      · exact h.listenerStep hinv hs
  | slave i a =>
      simp only [Server.next] at hs
      split at hs
      · cases hs
      · exact h.slaveStep hinv hs
  | openOther fd n =>
      simp only [Server.next] at hs
      split at hs
      · obtain rfl := Option.some.inj hs
        exact ⟨h.child, h.pages, h.result, h.bound, h.status⟩
      · cases hs
  | closeOther fd n =>
      simp only [Server.next] at hs
      split at hs
      · obtain rfl := Option.some.inj hs
        exact ⟨h.child, h.pages, h.result, h.bound, h.status⟩
      · cases hs

theorem ledger_start (kernel : Kernel Way File) : Ledger (Server.start kernel) := by
  refine ⟨fun i => ⟨rfl, rfl, ?_⟩, rfl, iff_of_true rfl ?_, ?_, nofun⟩
  · rintro ⟨f, hf, -⟩
    cases hf
  · intro f hf
    cases hf
  · intro f hf
    cases hf

/-- **Every state of a run.** -/
theorem Server.Reachable.ledger (h : Server.Reachable pageLength ignored s) : Ledger s := by
  obtain ⟨kernel, hfresh, hrun⟩ := h
  induction hrun with
  | refl => exact ledger_start kernel
  | tail hsteps hstep ih =>
      obtain ⟨l, hl⟩ := hstep
      have hinv : Inv _ := Server.Reachable.inv ⟨kernel, hfresh, hsteps⟩
      exact ih.next hinv hl

/-- What is left of a slave that no thread works with any more. -/
theorem Kept.left {stage : Stage} {c : Child} {life : Life} {shut : Bool} (h : Kept stage c life shut)
    (hplace : stage.place = none) (hpc : c.pc.place = none) (hsock : c.sock = 0) :
    life = .opened 0 ∨ ∃ fd, life = .closed fd := by
  have hquiet := h.guarded.quiet (by
    intro p closing hat
    cases p with
    | listener => exact absurd (hplace.symm.trans hat) nofun
    | slave => exact absurd (hpc.symm.trans hat) nofun)
  rcases hquiet with hlife | ⟨-, fd, -, hlife⟩
  · left
    rw [hlife, hsock]
  · exact Or.inr ⟨fd, hlife⟩

/-- The connections after `Work`. -/
theorem Inv.left (h : Inv s) (hpc : s.pc = .done) (i : Nat) :
    s.kernel.life (.connection i) = .unborn ∨ s.kernel.life (.connection i) = .opened 0 ∨
      ∃ fd, s.kernel.life (.connection i) = .closed fd := by
  have hslave := h.slave i
  rw [Server.stage, hpc] at hslave
  rcases Nat.lt_trichotomy i s.workers with hlt | rfl | hgt
  · have hstage : ListenPc.done.stage s.workers s.discarded i = .deleted := by
      simp [ListenPc.stage, hlt]
    rw [hstage] at hslave
    have hkept := hslave.kept rfl
    have hexited := hkept.allows.1
    exact Or.inr (hkept.left rfl (by rw [hexited]; rfl) (hkept.ended (by rw [hexited]; rfl)))
  · rw [stage_ending rfl] at hslave
    cases hdiscarded : s.discarded with
    | false =>
        rw [hdiscarded] at hslave
        exact Or.inl (hslave.absent rfl)
    | true =>
        rw [hdiscarded] at hslave
        have hkept := hslave.kept rfl
        obtain ⟨hunspawned, -, hsock⟩ := hkept.allows
        exact Or.inr (hkept.left rfl (by rw [hunspawned]; rfl) hsock)
  · rw [stage_gt hgt] at hslave
    exact Or.inl (hslave.absent rfl)

/-- **The end of `NetworkListenThread::Work`.** When it returns, every slave has run to its end and has been
deleted; the socket of the listener is not open; every connection that was accepted has been closed by
exactly one call, unless it came under descriptor 0; the pages are those that the slaves have sent back,
each once; and the status is true if and only if nothing has gone wrong. -/
theorem listener_result (h : Server.Reachable pageLength ignored s) (hdone : s.pc = .done) :
    (∀ i < s.workers, (s.child i).pc = .exited ∧ (s.child i).deleted = true) ∧
      (∀ fd, s.kernel.file fd ≠ some .listening) ∧
      (∀ i, s.kernel.life (.connection i) = .unborn ∨ s.kernel.life (.connection i) = .opened 0 ∨
        s.kernel.closesMeant (.connection i) = 1) ∧
      s.pagesCopied = ∑ i ∈ Finset.range s.workers, (s.child i).reflected ∧
      (s.status = true ↔ s.faults = []) := by
  have hinv := h.inv
  have hledger := h.ledger
  have hcollected : s.pc.collected s.workers = s.workers := by rw [hdone]; rfl
  refine ⟨?_, ?_, ?_, ?_, ?_⟩
  · intro i hi
    have hslave := hinv.slave i
    have hstage : s.stage i = .deleted := by
      rw [Server.stage, hdone]
      simp [ListenPc.stage, hi]
    rw [hstage] at hslave
    exact (hslave.kept rfl).allows
  · intro fd hfile
    have hopened := (hinv.kernel.file_iff ..).mp hfile
    have hsocket := hinv.socket_of hdone
    rcases hsocket with hsocket | hsocket
    · exact absurd (hsocket.symm.trans hopened) (by simp)
    · exact absurd (hsocket.symm.trans hopened) (by simp)
  · intro i
    rcases hinv.left hdone i with hlife | hlife | ⟨fd, hlife⟩
    · exact Or.inl hlife
    · exact Or.inr (Or.inl hlife)
    · right; right
      rw [hinv.kernel.closes_meant hinv.sound, hlife]
      rfl
  · rw [← hcollected]
    exact hledger.pages
  · rw [hledger.status hdone, hledger.result, hcollected]
    constructor
    · intro hclean
      apply List.eq_nil_iff_forall_not_mem.mpr
      intro f hf
      obtain ⟨i, hi, hle⟩ := hclean f hf
      exact absurd (hledger.bound f hf i hi) (Nat.not_lt.mpr hle)
    · intro hnil f hf
      rw [hnil] at hf
      cases hf

/-- Two slaves, one of which sends a page back, while the other one finds no memory. -/
def collectedLabels : List Label :=
  [.listener (.newFd 3), .listener (.go true)] ++
    [.listener (.go true), .listener (.go true), .listener (.newFd 4), .listener (.go true)] ++
    [.listener (.go true), .listener (.go true), .listener (.newFd 5), .listener (.go true)] ++
    [.slave 0 (.go true), .slave 0 (.go true), .slave 0 (.transferred 1), .slave 0 .failed,
      .slave 0 (.transferred 1), .slave 0 .failed] ++
    [.slave 1 (.go true), .slave 1 (.go false)] ++
    .listener (.go false) :: List.replicate 8 (.listener (.go true)) ++
    .slave 0 .failed :: List.replicate 6 (.slave 0 (.go true)) ++
    List.replicate 6 (.slave 1 (.go true)) ++ List.replicate 17 (.listener (.go true))

theorem listener_result_collected :
    ∃ s, (Server.start noFiles).run 1 false collectedLabels = some s ∧ s.pc = .done ∧
      s.pagesCopied = 1 ∧ s.faults = [.memalign 1] ∧ ¬ s.status = true := by
  have hrun : (Server.start noFiles).run 1 false collectedLabels = some _ := rfl
  obtain ⟨-, -, -, hpages, hstatus⟩ :=
    listener_result ((Server.Reachable.start fresh_noFiles).run hrun) rfl
  refine ⟨_, hrun, rfl, hpages.trans rfl, rfl, ?_⟩
  intro htrue
  exact List.cons_ne_nil (Fault.memalign 1) [] (hstatus.mp htrue)

end Runs

end StressAppTest.Network.Listener
