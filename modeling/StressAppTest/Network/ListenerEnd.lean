import Mathlib.Algebra.Order.BigOperators.Group.Finset
import Mathlib.Tactic.Ring
import StressAppTest.Network.ListenerResult

/-!
# The end of the listener

Once every slave has been shut down, `pthread_join` comes back: a slave can still receive what is left of
a page, but the first page that it sends fails. `Server.rank` bounds the steps that are left of the
listener and of all slaves together.

* `Inv.rank_next`: each step of a thread lowers it.
* `Inv.thread_enabled`: some thread can make a step, which no peer has to answer.
* `listener_ends`: both along a run.
-/

namespace StressAppTest.Network.Listener

open Descriptors GuardedHandle

/-- The last loops after the one that shuts the slaves down. -/
def ListenPc.joining : ListenPc → Bool
  | .join _ | .close _ _ | .collect _ | .delete _ _ | .closeSocket | .done => true
  | _ => false

/-- A step of the listener or of a slave. -/
def Label.ofThread : Label → Bool
  | .listener _ | .slave _ _ => true
  | .openOther _ _ | .closeOther _ _ => false

/-- The steps that are left of a section. -/
def sectionRank : Section → Nat
  | .lock => 5
  | .test => 4
  | .call => 3
  | .clear => 2
  | .unlock => 1

/-- The steps that are left of a slave whose connection has been shut down. -/
def SlavePc.rank (pageLength : Nat) : SlavePc → Nat
  | .unspawned | .exited => 0
  | .removeSelf => 1
  | .closing place => sectionRank place + 1
  | .sending _ n _ => if n = pageLength then pageLength + 9 else 7
  | .receiving _ n _ => pageLength - n + 8
  | .memalign _ => pageLength + 9
  | .start => pageLength + 10

/-- The steps that are left of the listener. -/
def ListenPc.rank (workers : Nat) : ListenPc → Nat
  | .join i => 1 + 5 * workers + 7 * (workers - i)
  | .close i place => 2 + 5 * workers + 7 * (workers - (i + 1)) + sectionRank place
  | .collect i => 2 + 5 * workers + 7 * (workers - (i + 1))
  | .delete i place => 1 + 5 * (workers - (i + 1)) + sectionRank place
  | .closeSocket => 1
  | _ => 0

def Server.rank (pageLength : Nat) (s : Server) : Nat :=
  if s.killed then 0
  else 1 + s.pc.rank s.workers + ∑ i ∈ Finset.range s.workers, (s.child i).pc.rank pageLength

theorem sectionRank_le (place : Section) : sectionRank place ≤ 5 := by
  cases place <;> decide

theorem SlavePc.rank_le (pageLength : Nat) (pc : SlavePc) : pc.rank pageLength ≤ pageLength + 10 := by
  cases pc with
  | closing place =>
      have hle := sectionRank_le place
      simp only [SlavePc.rank]
      omega
  | sending sock n loops =>
      simp only [SlavePc.rank]
      split <;> omega
  | _ =>
      simp only [SlavePc.rank]
      omega

theorem ListenPc.rank_le {workers : Nat} {pc : ListenPc} (hindex : pc.Index workers) :
    pc.rank workers ≤ 1 + 12 * workers := by
  cases pc with
  | close i place =>
      have hle := sectionRank_le place
      have hi : i < workers := hindex
      simp only [ListenPc.rank]
      omega
  | delete i place =>
      have hle := sectionRank_le place
      have hi : i < workers := hindex
      simp only [ListenPc.rank]
      omega
  | collect i =>
      have hi : i < workers := hindex
      simp only [ListenPc.rank]
      omega
  | _ =>
      simp only [ListenPc.rank]
      omega

theorem Server.rank_le {s : Server} (hindex : s.pc.Index s.workers) (pageLength : Nat) :
    s.rank pageLength ≤ s.workers * (pageLength + 22) + 2 := by
  have hlistener := ListenPc.rank_le hindex
  have hslaves : ∑ i ∈ Finset.range s.workers, (s.child i).pc.rank pageLength ≤
      s.workers * (pageLength + 10) := by
    have hsum := Finset.sum_le_card_nsmul (Finset.range s.workers)
      (fun i => (s.child i).pc.rank pageLength) (pageLength + 10) fun i _ => SlavePc.rank_le ..
    rwa [Finset.card_range, nsmul_eq_mul, Nat.cast_id] at hsum
  unfold Server.rank
  split
  · omega
  · have hmul : s.workers * (pageLength + 22) = s.workers * (pageLength + 10) + 12 * s.workers := by
      ring
    omega

/-! ## The listener -/

section Listener

variable {s : Server}

section Inversion

variable {a : Answer} {s' : Server} {i : Nat} {place : Section}

theorem listenerStep_join (hpc : s.pc = .join i) (hs : s.listenerStep a = some s') :
    (s.child i).pc = .exited ∧ s' = s.setPc (.close i .lock) := by
  cases a with
  | go yes =>
      simp only [Server.listenerStep, hpc] at hs
      split at hs
      · next hexited => exact ⟨hexited, (Option.some.inj hs).symm⟩
      · cases hs
  | _ => simp [Server.listenerStep, hpc] at hs

theorem listenerStep_close (hpc : s.pc = .close i place) (hs : s.listenerStep a = some s') :
    (s.section_ i .listener true place).map
      (Server.advance (.close i) fun s => s.setPc (.collect i)) = some s' := by
  cases a with
  | go yes =>
      simp only [Server.listenerStep, hpc] at hs
      exact hs
  | _ => simp [Server.listenerStep, hpc] at hs

theorem listenerStep_collect (hpc : s.pc = .collect i) (hs : s.listenerStep a = some s') :
    s' = { s with
      result := s.result && (s.child i).status
      pagesCopied := s.pagesCopied + (s.child i).pagesCopied
      pc := s.joinFrom (i + 1) } := by
  cases a with
  | go yes =>
      simp only [Server.listenerStep, hpc] at hs
      exact (Option.some.inj hs).symm
  | _ => simp [Server.listenerStep, hpc] at hs

theorem listenerStep_delete (hpc : s.pc = .delete i place) (hs : s.listenerStep a = some s') :
    (s.section_ i .listener true place).map (Server.advance (.delete i) fun s =>
      (s.setChild i { s.child i with deleted := true }).setPc (s.deleteFrom (i + 1))) = some s' := by
  cases a with
  | go yes =>
      simp only [Server.listenerStep, hpc] at hs
      exact hs
  | _ => simp [Server.listenerStep, hpc] at hs

theorem listenerStep_closeSocket (hpc : s.pc = .closeSocket) (hs : s.listenerStep a = some s') :
    s' = { s.close .listening s.sock with pc := .done, status := s.result } := by
  cases a with
  | go yes =>
      simp only [Server.listenerStep, hpc] at hs
      exact (Option.some.inj hs).symm
  | _ => simp [Server.listenerStep, hpc] at hs

end Inversion

theorem rank_deleteFrom (s : Server) (i : Nat) :
    (s.deleteFrom i).rank s.workers = 1 + 5 * (s.workers - i) ∧ (s.deleteFrom i).joining = true := by
  unfold Server.deleteFrom
  split
  · next hi =>
    refine ⟨?_, rfl⟩
    simp only [ListenPc.rank, sectionRank]
    omega
  · next hi =>
    refine ⟨?_, rfl⟩
    simp only [ListenPc.rank]
    omega

theorem rank_joinFrom (s : Server) (i : Nat) :
    (s.joinFrom i).rank s.workers = 1 + 5 * s.workers + 7 * (s.workers - i) ∧
      (s.joinFrom i).joining = true := by
  unfold Server.joinFrom
  split
  · exact ⟨rfl, rfl⟩
  · obtain ⟨hrank, hjoining⟩ := rank_deleteFrom s 0
    refine ⟨?_, hjoining⟩
    rw [hrank]
    omega

/-- What a step of a section does to the places of the threads. -/
theorem section_rank {i : Nat} {party : Party} {closing : Bool} {place : Section} {s₁ : Server}
    {next : Option Section} (h : s.section_ i party closing place = some (s₁, next)) :
    (s₁.workers = s.workers ∧ s₁.killed = s.killed) ∧ (∀ j, (s₁.child j).pc = (s.child j).pc) ∧
      ∀ place', next = some place' → sectionRank place' < sectionRank place := by
  have hset (c : Child) (hc : c.pc = (s.child i).pc) (j : Nat) :
      ((s.setChild i c).child j).pc = (s.child j).pc := by
    by_cases hj : j = i
    · rw [hj]
      simp only [Server.setChild, Function.update_self]
      exact hc
    · simp only [Server.setChild, Function.update_of_ne hj]
  cases place with
  | lock =>
      simp only [Server.section_] at h
      split at h
      · obtain ⟨rfl, rfl⟩ := Prod.ext_iff.mp (Option.some.inj h)
        refine ⟨⟨rfl, rfl⟩, hset _ rfl, ?_⟩
        intro place' hplace
        obtain rfl := Option.some.inj hplace
        decide
      · cases h
  | test =>
      obtain ⟨rfl, rfl⟩ := Prod.ext_iff.mp (Option.some.inj h)
      refine ⟨⟨rfl, rfl⟩, fun _ => rfl, ?_⟩
      intro place' hplace
      obtain rfl := Option.some.inj hplace
      split <;> decide
  | call =>
      cases closing with
      | true =>
          obtain ⟨rfl, rfl⟩ := Prod.ext_iff.mp (Option.some.inj h)
          refine ⟨⟨rfl, rfl⟩, fun _ => rfl, ?_⟩
          intro place' hplace
          obtain rfl := Option.some.inj hplace
          decide
      | false =>
          obtain ⟨rfl, rfl⟩ := Prod.ext_iff.mp (Option.some.inj h)
          refine ⟨⟨rfl, rfl⟩, fun _ => rfl, ?_⟩
          intro place' hplace
          obtain rfl := Option.some.inj hplace
          decide
  | clear =>
      obtain ⟨rfl, rfl⟩ := Prod.ext_iff.mp (Option.some.inj h)
      refine ⟨⟨rfl, rfl⟩, hset _ rfl, ?_⟩
      intro place' hplace
      obtain rfl := Option.some.inj hplace
      decide
  | unlock =>
      obtain ⟨rfl, rfl⟩ := Prod.ext_iff.mp (Option.some.inj h)
      exact ⟨⟨rfl, rfl⟩, hset _ rfl, by simp⟩

/-- The listener is nearer to its end, and the slaves are where they were. -/
theorem rank_lt_of_listener {s' : Server} {pageLength : Nat} (hkilled : s.killed = false)
    (hfields : s'.workers = s.workers ∧ s'.killed = s.killed)
    (hchild : ∀ j, (s'.child j).pc = (s.child j).pc) (hpc : s'.pc.rank s.workers < s.pc.rank s.workers) :
    s'.rank pageLength < s.rank pageLength := by
  obtain ⟨hworkers, hsame⟩ := hfields
  have hsum : ∑ i ∈ Finset.range s.workers, (s'.child i).pc.rank pageLength =
      ∑ i ∈ Finset.range s.workers, (s.child i).pc.rank pageLength := by
    apply Finset.sum_congr rfl
    intro i _
    rw [hchild]
  unfold Server.rank
  rw [hsame, hkilled, hworkers, hsum]
  simp only [Bool.false_eq_true, if_false]
  omega

/-- **A step of the listener.** -/
theorem rank_listenerStep (hkilled : s.killed = false) (hjoining : s.pc.joining = true)
    (hindex : s.pc.Index s.workers) {a : Answer} {s' : Server} (hs : s.listenerStep a = some s')
    (pageLength : Nat) : s'.rank pageLength < s.rank pageLength ∧ s'.pc.joining = true := by
  cases hpc : s.pc with
  | join i =>
      rw [hpc] at hindex
      have hi : i < s.workers := hindex
      obtain ⟨-, hs⟩ := listenerStep_join hpc hs
      obtain rfl := hs
      refine ⟨rank_lt_of_listener hkilled ⟨rfl, rfl⟩ (fun _ => rfl) ?_, rfl⟩
      rw [hpc]
      simp only [Server.setPc, ListenPc.rank, sectionRank]
      omega
  | close i place =>
      obtain ⟨⟨s₁, next⟩, hsection, rfl⟩ := Option.map_eq_some_iff.mp (listenerStep_close hpc hs)
      obtain ⟨hfields, hchild, hplace⟩ := section_rank hsection
      cases next with
      | some place' =>
          have hlt := hplace place' rfl
          refine ⟨rank_lt_of_listener hkilled hfields hchild ?_, rfl⟩
          rw [hpc]
          simp only [Server.advance, Server.setPc, ListenPc.rank]
          omega
      | none =>
          rw [section_none hsection] at hpc
          refine ⟨rank_lt_of_listener hkilled hfields hchild ?_, rfl⟩
          rw [hpc]
          simp only [Server.advance, Server.setPc, ListenPc.rank, sectionRank]
          omega
  | collect i =>
      rw [hpc] at hindex
      have hi : i < s.workers := hindex
      obtain ⟨hrank, hjoin⟩ := rank_joinFrom s (i + 1)
      obtain rfl := listenerStep_collect hpc hs
      refine ⟨rank_lt_of_listener hkilled ⟨rfl, rfl⟩ (fun _ => rfl) ?_, hjoin⟩
      rw [hpc, hrank]
      simp only [ListenPc.rank]
      omega
  | delete i place =>
      obtain ⟨⟨s₁, next⟩, hsection, rfl⟩ := Option.map_eq_some_iff.mp (listenerStep_delete hpc hs)
      obtain ⟨hfields, hchild, hplace⟩ := section_rank hsection
      cases next with
      | some place' =>
          have hlt := hplace place' rfl
          refine ⟨rank_lt_of_listener hkilled hfields hchild ?_, rfl⟩
          rw [hpc]
          simp only [Server.advance, Server.setPc, ListenPc.rank]
          omega
      | none =>
          rw [section_none hsection] at hpc
          obtain ⟨hrank, hjoin⟩ := rank_deleteFrom s₁ (i + 1)
          rw [hfields.1] at hrank
          refine ⟨rank_lt_of_listener hkilled hfields ?_ ?_, hjoin⟩
          · intro j
            by_cases hj : j = i
            · subst hj
              simp only [Server.advance, Server.setChild, Server.setPc, Function.update_self]
              exact hchild j
            · simp only [Server.advance, Server.setChild, Server.setPc, Function.update_of_ne hj]
              exact hchild j
          · rw [hpc]
            change (s₁.deleteFrom (i + 1)).rank s.workers < _
            rw [hrank]
            simp only [ListenPc.rank, sectionRank]
            omega
  | closeSocket =>
      obtain rfl := listenerStep_closeSocket hpc hs
      refine ⟨rank_lt_of_listener hkilled ⟨rfl, rfl⟩ (fun _ => rfl) ?_, rfl⟩
      rw [hpc]
      exact Nat.zero_lt_one
  | done => exact absurd hs (by simp [Server.listenerStep, hpc])
  | _ =>
      rw [hpc] at hjoining
      cases hjoining

end Listener

/-! ## The slaves -/

section Slave

variable {s : Server} {i : Nat}

/-- A slave that still runs has been shut down. -/
theorem Inv.shutDown_of_joining (h : Inv s) (hjoining : s.pc.joining = true)
    (hunspawned : (s.child i).pc ≠ .unspawned) (hexited : (s.child i).pc ≠ .exited) :
    i < s.workers ∧ s.stage i = .shutDown := by
  obtain ⟨hi, hcollected⟩ := h.running_index hunspawned hexited
  obtain ⟨hkept, -⟩ := h.kept hunspawned
  have hallows := hkept.allows
  refine ⟨hi, ?_⟩
  rw [Server.stage] at hallows ⊢
  cases hpc : s.pc with
  | join j =>
      rw [hpc] at hcollected
      have hle : j ≤ i := hcollected
      simp [ListenPc.stage, hi, Nat.not_lt.mpr hle]
  | close j place =>
      rw [hpc] at hcollected hallows
      have hle : j ≤ i := hcollected
      by_cases hij : i = j
      · subst hij
        rw [(inside_close hi s.discarded).self] at hallows
        exact absurd hallows.1 hexited
      · simp [ListenPc.stage, hi, Nat.not_lt.mpr hle, hij]
  | collect j =>
      rw [hpc] at hcollected hallows
      have hle : j ≤ i := hcollected
      by_cases hij : i = j
      · subst hij
        have hstage : (ListenPc.collect i).stage s.workers s.discarded i = .reaped := by
          simp [ListenPc.stage, hi]
        rw [hstage] at hallows
        exact absurd hallows.1 hexited
      · simp [ListenPc.stage, hi, show ¬ i ≤ j by omega]
  | delete j place | closeSocket | done =>
      rw [hpc] at hcollected
      exact absurd hi (Nat.not_lt.mpr hcollected)
  | _ =>
      rw [hpc] at hjoining
      cases hjoining

/-- The kernel takes no data from a slave that still works. -/
theorem Inv.shut_of_joining (h : Inv s) (hjoining : s.pc.joining = true) {sock : Nat}
    (hcopy : (s.child i).pc.copy = some sock) : s.shut i = true := by
  obtain ⟨-, hunspawned, hexited, -⟩ := SlavePc.place_of_copy hcopy
  obtain ⟨-, hstage⟩ := h.shutDown_of_joining hjoining hunspawned hexited
  obtain ⟨hkept, -⟩ := h.kept hunspawned
  have hallows := hkept.allows
  obtain ⟨hsock, hpos⟩ := hkept.copy sock hcopy
  rw [hstage] at hallows
  rcases hallows.2 with hzero | hshut
  · omega
  · exact hshut

/-- The slave is nearer to its end, and the others are where they were. -/
theorem rank_lt_of_slave {s' : Server} {pageLength : Nat} (hkilled : s.killed = false)
    (hi : i < s.workers) (hrest : s'.pc = s.pc ∧ s'.workers = s.workers)
    (hother : ∀ j, j ≠ i → (s'.child j).pc = (s.child j).pc)
    (hpc : (s'.child i).pc.rank pageLength < (s.child i).pc.rank pageLength) :
    s'.rank pageLength < s.rank pageLength ∧ s'.pc = s.pc := by
  obtain ⟨hsame, hworkers⟩ := hrest
  have hsum : ∑ j ∈ Finset.range s.workers, (s'.child j).pc.rank pageLength <
      ∑ j ∈ Finset.range s.workers, (s.child j).pc.rank pageLength := by
    apply Finset.sum_lt_sum
    · intro j _
      by_cases hj : j = i
      · rw [hj]
        exact hpc.le
      · rw [hother j hj]
    · exact ⟨i, Finset.mem_range.mpr hi, hpc⟩
  refine ⟨?_, hsame⟩
  unfold Server.rank
  rw [hkilled, hsame, hworkers]
  split
  · simp only [Bool.false_eq_true, if_false]
    omega
  · simp only [Bool.false_eq_true, if_false]
    omega

theorem rank_setChild {pageLength : Nat} (hkilled : s.killed = false) (hi : i < s.workers) {s' : Server}
    {c : Child} (hrest : s'.pc = s.pc ∧ s'.workers = s.workers)
    (hchild : s'.child = Function.update s.child i c)
    (hpc : c.pc.rank pageLength < (s.child i).pc.rank pageLength) :
    s'.rank pageLength < s.rank pageLength ∧ s'.pc = s.pc := by
  refine rank_lt_of_slave hkilled hi hrest ?_ ?_
  · intro j hj
    rw [hchild, Function.update_of_ne hj]
  · rw [hchild, Function.update_self]
    exact hpc

/-- **A step of a slave.** -/
theorem Inv.rank_slaveStep (h : Inv s) {pageLength : Nat} (hlength : 0 < pageLength)
    (hkilled : s.killed = false) (hjoining : s.pc.joining = true) {ignored : Bool} {a : Answer}
    {s' : Server} (hs : s.slaveStep pageLength ignored i a = some s') :
    s'.rank pageLength < s.rank pageLength ∧ s'.pc = s.pc := by
  have hindex (hunspawned : (s.child i).pc ≠ .unspawned) (hexited : (s.child i).pc ≠ .exited) :
      i < s.workers := (h.shutDown_of_joining hjoining hunspawned hexited).1
  unfold Server.slaveStep at hs
  split at hs
  · next hpc =>
    have hi := hindex (by rw [hpc]; simp) (by rw [hpc]; simp)
    split at hs
    · obtain rfl := Option.some.inj hs
      refine rank_setChild hkilled hi ⟨rfl, rfl⟩ rfl ?_
      rw [hpc]
      simp only [SlavePc.rank]
      omega
    · obtain rfl := Option.some.inj hs
      refine rank_setChild hkilled hi ⟨rfl, rfl⟩ rfl ?_
      rw [hpc]
      simp only [SlavePc.rank]
      omega
  · next sock hpc =>
    have hi := hindex (by rw [hpc]; simp) (by rw [hpc]; simp)
    obtain rfl := Option.some.inj hs
    refine rank_setChild hkilled hi ⟨rfl, rfl⟩ rfl ?_
    rw [hpc]
    simp only [SlavePc.rank]
    omega
  · next sock hpc =>
    have hi := hindex (by rw [hpc]; simp) (by rw [hpc]; simp)
    obtain rfl := Option.some.inj hs
    refine rank_setChild hkilled hi ⟨rfl, rfl⟩ rfl ?_
    rw [hpc]
    simp only [SlavePc.rank, sectionRank]
    omega
  · next sock n loops hpc =>
    have hi := hindex (by rw [hpc]; simp) (by rw [hpc]; simp)
    split at hs
    · next hn =>
      -- the page is complete, and the next call is a `send`
      obtain rfl := Option.some.inj hs
      refine rank_setChild hkilled hi ⟨rfl, rfl⟩ rfl ?_
      rw [hpc]
      simp only [SlavePc.rank, if_neg hlength.ne]
      omega
    · split at hs
      · next k =>
        split at hs
        · obtain rfl := Option.some.inj hs
          refine rank_setChild hkilled hi ⟨rfl, rfl⟩ rfl ?_
          rw [hpc]
          simp only [SlavePc.rank]
          omega
        · cases hs
      · obtain rfl := Option.some.inj hs
        refine rank_setChild hkilled hi ⟨rfl, rfl⟩ rfl ?_
        rw [hpc]
        simp only [SlavePc.rank, sectionRank]
        omega
      · cases hs
  · next sock n loops hpc =>
    have hi := hindex (by rw [hpc]; simp) (by rw [hpc]; simp)
    have hshut : s.shut i = true := h.shut_of_joining hjoining (by rw [hpc]; rfl)
    split at hs
    · next hn =>
      obtain rfl := Option.some.inj hs
      refine rank_setChild hkilled hi ⟨rfl, rfl⟩ rfl ?_
      rw [hpc]
      simp only [SlavePc.rank, if_pos hn]
      omega
    · next hn =>
      split at hs
      · simp [hshut] at hs
      · cases hs
      · split at hs
        · obtain rfl := Option.some.inj hs
          refine rank_setChild hkilled hi ⟨rfl, rfl⟩ rfl ?_
          rw [hpc]
          simp only [SlavePc.rank, sectionRank, if_neg hn]
          omega
        · obtain rfl := Option.some.inj hs
          refine ⟨?_, rfl⟩
          unfold Server.rank
          rw [hkilled]
          simp only [if_true, Bool.false_eq_true, if_false]
          omega
      · cases hs
  · next place _ hpc =>
    have hi := hindex (by rw [hpc]; simp) (by rw [hpc]; simp)
    obtain ⟨⟨s₁, next⟩, hsection, rfl⟩ := Option.map_eq_some_iff.mp hs
    obtain ⟨hkept, -⟩ := h.kept (by rw [hpc]; simp)
    have hparty : places (s.stage i) (s.child i).pc .slave = some (true, place) := by
      rw [hpc]
      rfl
    obtain ⟨hsec, -⟩ := section_spec h.kernel h.sound hkept.guarded hparty hsection
    obtain ⟨-, -, hplace⟩ := section_rank hsection
    obtain ⟨hsame, hworkers, -⟩ := hsec.fields
    refine rank_lt_of_slave hkilled hi ⟨hsame, hworkers⟩ ?_ ?_
    · intro j hj
      simp only [Server.setSlave, Server.setChild, Function.update_of_ne hj]
      rw [hsec.child j hj]
    · simp only [Server.setSlave, Server.setChild, Function.update_self]
      rw [hpc]
      cases next with
      | some place' =>
          have hlt := hplace place' rfl
          simp only [SlavePc.closeOwned, SlavePc.rank]
          omega
      | none =>
          simp only [SlavePc.closeOwned, SlavePc.rank]
          cases place <;> decide
  · next hpc =>
    have hi := hindex (by rw [hpc]; simp) (by rw [hpc]; simp)
    obtain rfl := Option.some.inj hs
    refine rank_setChild hkilled hi ⟨rfl, rfl⟩ rfl ?_
    rw [hpc]
    exact Nat.zero_lt_one
  · cases hs

end Slave

/-! ## Some thread can go on -/

/-- A step that waits for no peer. -/
def Server.Alone (s : Server) : Label → Prop
  | .listener _ => s.pc.ending = true
  | .slave i _ => ∀ sock, (s.child i).pc.copy = some sock → s.shut i = true
  | .openOther _ _ | .closeOther _ _ => False

/-- A thread can make a step by itself. -/
def Server.GoesOn (s : Server) (pageLength : Nat) (ignored : Bool) : Prop :=
  ∃ l, s.Alone l ∧ (s.next pageLength ignored l).isSome = true

section GoesOn

variable {s : Server} {i : Nat} {pageLength : Nat} {ignored : Bool}

theorem goesOn_listener (hkilled : s.killed = false) (hending : s.pc.ending = true)
    (hs : (s.listenerStep (.go true)).isSome = true) : s.GoesOn pageLength ignored := by
  refine ⟨.listener (.go true), hending, ?_⟩
  simp only [Server.next, hkilled]
  exact hs

theorem goesOn_slave (hkilled : s.killed = false) (a : Answer)
    (halone : ∀ sock, (s.child i).pc.copy = some sock → s.shut i = true)
    (hs : (s.slaveStep pageLength ignored i a).isSome = true) : s.GoesOn pageLength ignored := by
  refine ⟨.slave i a, halone, ?_⟩
  simp only [Server.next, hkilled]
  exact hs

/-- A section goes on, except where its lock is taken. -/
theorem section_isSome {party : Party} {closing : Bool} {place : Section}
    (h : place = .lock → (s.child i).lock = none) :
    (s.section_ i party closing place).isSome = true := by
  cases place with
  | lock =>
      simp only [Server.section_]
      rw [if_pos (h rfl)]
      rfl
  | call => cases closing <;> rfl
  | _ => rfl

theorem goesOn_closing (hkilled : s.killed = false) {place : Section}
    (hpc : (s.child i).pc = .closing place) (hlock : place = .lock → (s.child i).lock = none) :
    s.GoesOn pageLength ignored := by
  refine goesOn_slave (i := i) hkilled (.go true) ?_ ?_
  · intro sock hcopy
    rw [hpc] at hcopy
    cases hcopy
  · simp only [Server.slaveStep, hpc, Option.isSome_map]
    exact section_isSome hlock

/-- The listener goes on in a section, or the slave is in the section and goes on. -/
theorem Inv.goesOn_inside (h : Inv s) (hkilled : s.killed = false) {inside : Section → ListenPc}
    {closing : Bool} {stage : Section → Stage} {place : Section}
    (hin : Inside inside s.workers s.discarded i closing stage) (hpc : s.pc = inside place)
    (hending : s.pc.ending = true)
    (hs : (s.section_ i .listener closing place).isSome = true →
      (s.listenerStep (.go true)).isSome = true) : s.GoesOn pageLength ignored := by
  have hkept := h.inside_kept hin hpc
  by_cases hfree : place = .lock → (s.child i).lock = none
  · exact goesOn_listener hkilled hending (hs (section_isSome hfree))
  · obtain ⟨hlock, hheld⟩ := Classical.not_imp.mp hfree
    obtain ⟨p, hp⟩ := Option.ne_none_iff_exists'.mp hheld
    obtain ⟨closing', at_, hplaces, hat⟩ := (hkept.guarded.lock_iff p).mp hp
    cases p with
    | listener =>
        have hlistener : places (stage place) (s.child i).pc .listener = some (closing, place) :=
          hin.place place
        rw [hlistener, hlock] at hplaces
        obtain ⟨-, rfl⟩ := Prod.ext_iff.mp (Option.some.inj hplaces)
        exact absurd rfl hat
    | slave =>
        change (s.child i).pc.place = _ at hplaces
        cases hslave : (s.child i).pc with
        | closing at' =>
            rw [hslave] at hplaces
            obtain ⟨-, rfl⟩ := Prod.ext_iff.mp (Option.some.inj hplaces)
            exact goesOn_closing hkilled hslave fun heq => absurd heq hat
        | _ =>
            rw [hslave] at hplaces
            cases hplaces

/-- A slave that has been shut down goes on. -/
theorem Inv.goesOn_shutDown (h : Inv s) (hkilled : s.killed = false) (hjoining : s.pc.joining = true)
    (hunspawned : (s.child i).pc ≠ .unspawned) (hexited : (s.child i).pc ≠ .exited) :
    s.GoesOn pageLength ignored := by
  obtain ⟨hkept, -⟩ := h.kept hunspawned
  obtain ⟨-, hstage⟩ := h.shutDown_of_joining hjoining hunspawned hexited
  have hshut (sock : Nat) (hcopy : (s.child i).pc.copy = some sock) : s.shut i = true :=
    h.shut_of_joining hjoining hcopy
  cases hpc : (s.child i).pc with
  | unspawned => exact absurd hpc hunspawned
  | exited => exact absurd hpc hexited
  | start =>
      refine goesOn_slave (i := i) hkilled (.go true) hshut ?_
      simp only [Server.slaveStep, hpc]
      split <;> rfl
  | memalign sock =>
      refine goesOn_slave (i := i) hkilled (.go true) hshut ?_
      simp only [Server.slaveStep, hpc]
      rfl
  | receiving sock n loops =>
      -- `recv` comes back on a connection that has been shut down
      refine goesOn_slave (i := i) hkilled .failed hshut ?_
      simp only [Server.slaveStep, hpc]
      split <;> rfl
  | sending sock n loops =>
      refine goesOn_slave (i := i) hkilled .pipe hshut ?_
      simp only [Server.slaveStep, hpc]
      split
      · rfl
      · split <;> rfl
  | closing place =>
      refine goesOn_closing hkilled hpc fun hplace => ?_
      subst hplace
      by_contra hheld
      obtain ⟨p, hp⟩ := Option.ne_none_iff_exists'.mp hheld
      obtain ⟨closing, at_, hplaces, hat⟩ := (hkept.guarded.lock_iff p).mp hp
      cases p with
      | listener =>
          change (s.stage i).place = _ at hplaces
          rw [hstage] at hplaces
          cases hplaces
      | slave =>
          change (s.child i).pc.place = _ at hplaces
          rw [hpc] at hplaces
          obtain ⟨-, rfl⟩ := Prod.ext_iff.mp (Option.some.inj hplaces)
          exact hat rfl
  | removeSelf =>
      refine goesOn_slave (i := i) hkilled (.go true) hshut ?_
      simp only [Server.slaveStep, hpc]
      rfl

/-- **No deadlock.** From the first `ShutdownSocket` on, until the listener has returned. -/
theorem Inv.goesOn (h : Inv s) (hkilled : s.killed = false) (hending : s.pc.ending = true)
    (hdone : s.pc ≠ .done) : s.GoesOn pageLength ignored := by
  cases hpc : s.pc with
  | shutdown i place =>
      refine h.goesOn_inside hkilled (inside_shutdown (h.index_of hpc) _) hpc hending fun hs => ?_
      simp only [Server.listenerStep, hpc, Option.isSome_map]
      exact hs
  | close i place =>
      refine h.goesOn_inside hkilled (inside_close (h.index_of hpc) _) hpc hending fun hs => ?_
      simp only [Server.listenerStep, hpc, Option.isSome_map]
      exact hs
  | delete i place =>
      refine h.goesOn_inside hkilled (inside_delete (h.index_of hpc) _) hpc hending fun hs => ?_
      simp only [Server.listenerStep, hpc, Option.isSome_map]
      exact hs
  | join i =>
      have hi : i < s.workers := h.index_of hpc
      by_cases hexited : (s.child i).pc = .exited
      · refine goesOn_listener hkilled hending ?_
        simp only [Server.listenerStep, hpc, if_pos hexited]
        rfl
      · have hstage : s.stage i = .shutDown := by
          rw [Server.stage, hpc]
          simp [ListenPc.stage, hi]
        have hslave := h.slave i
        rw [hstage] at hslave
        exact h.goesOn_shutDown hkilled (by rw [hpc]; rfl) (hslave.kept rfl).allows.1.1 hexited
  | collect i =>
      refine goesOn_listener hkilled hending ?_
      simp only [Server.listenerStep, hpc]
      rfl
  | closeSocket =>
      refine goesOn_listener hkilled hending ?_
      simp only [Server.listenerStep, hpc]
      rfl
  | done => exact absurd hpc hdone
  | _ =>
      rw [hpc] at hending
      cases hending

end GoesOn

/-! ## Runs -/

section Runs

variable {s s' : Server} {pageLength : Nat} {ignored : Bool}

/-- **A step of any thread.** -/
theorem Inv.rank_next (h : Inv s) (hlength : 0 < pageLength) (hjoining : s.pc.joining = true) {l : Label}
    (hs : s.next pageLength ignored l = some s') :
    s'.rank pageLength + (if l.ofThread then 1 else 0) ≤ s.rank pageLength ∧
      s'.pc.joining = true := by
  cases l with
  | listener a =>
      simp only [Server.next] at hs
      split at hs
      · cases hs
      · next hkilled =>
        exact rank_listenerStep (by simpa using hkilled) hjoining h.index hs pageLength
  | slave i a =>
      simp only [Server.next] at hs
      split at hs
      · cases hs
      · next hkilled =>
        obtain ⟨hlt, hpc⟩ := h.rank_slaveStep hlength (by simpa using hkilled) hjoining hs
        exact ⟨hlt, hpc ▸ hjoining⟩
  | openOther fd n =>
      simp only [Server.next] at hs
      split at hs
      · obtain rfl := Option.some.inj hs
        exact ⟨Nat.le_refl _, hjoining⟩
      · cases hs
  | closeOther fd n =>
      simp only [Server.next] at hs
      split at hs
      · obtain rfl := Option.some.inj hs
        exact ⟨Nat.le_refl _, hjoining⟩
      · cases hs

theorem Inv.rank_run (h : Inv s) (hlength : 0 < pageLength) (hjoining : s.pc.joining = true)
    {labels : List Label} (hrun : s.run pageLength ignored labels = some s') :
    s'.rank pageLength + labels.countP Label.ofThread ≤ s.rank pageLength ∧
      s'.pc.joining = true ∧ Inv s' := by
  induction labels generalizing s with
  | nil =>
      obtain rfl := Option.some.inj hrun
      exact ⟨Nat.le_refl _, hjoining, h⟩
  | cons l labels ih =>
      obtain ⟨s₁, hstep, hrest⟩ := Option.bind_eq_some_iff.mp hrun
      obtain ⟨hrank, hjoining₁⟩ := h.rank_next hlength hjoining hstep
      obtain ⟨hle, hend⟩ := ih (h.next hstep) hjoining₁ hrest
      refine ⟨?_, hend⟩
      rw [List.countP_cons]
      omega

theorem killed_listenerStep {a : Answer} (hs : s.listenerStep a = some s') : s'.killed = s.killed := by
  have hsection {i : Nat} {closing : Bool} {place : Section} {inside : Section → ListenPc}
      {after : Server → Server}
      (h : (s.section_ i .listener closing place).map (Server.advance inside after) = some s')
      (hafter : ∀ s₁, (after s₁).killed = s₁.killed) : s'.killed = s.killed := by
    obtain ⟨⟨s₁, next⟩, hs₁, rfl⟩ := Option.map_eq_some_iff.mp h
    obtain ⟨⟨-, hkilled⟩, -⟩ := section_rank hs₁
    cases next with
    | some place' => exact hkilled
    | none => exact (hafter s₁).trans hkilled
  unfold Server.listenerStep at hs
  split at hs
  case h_1 | h_9 =>
    split at hs
    · obtain rfl := Option.some.inj hs
      rfl
    · cases hs
  case h_15 =>
    split at hs
    · obtain rfl := Option.some.inj hs
      rfl
    · cases hs
  case h_11 newsock created hpc =>
    obtain rfl := Option.some.inj hs
    cases created <;> rfl
  case h_12 | h_13 | h_14 | h_16 | h_18 => exact hsection hs fun _ => rfl
  case h_20 => cases hs
  all_goals
    obtain rfl := Option.some.inj hs
    rfl

/-- Only `SIGPIPE` ends the process. -/
theorem killed_slaveStep {i : Nat} {a : Answer} (hs : s.slaveStep pageLength true i a = some s') :
    s'.killed = s.killed := by
  unfold Server.slaveStep at hs
  split at hs
  case h_1 =>
    split at hs
    · obtain rfl := Option.some.inj hs
      rfl
    · obtain rfl := Option.some.inj hs
      rfl
  case h_4 =>
    split at hs
    · obtain rfl := Option.some.inj hs
      rfl
    · split at hs
      · split at hs
        · obtain rfl := Option.some.inj hs
          rfl
        · cases hs
      · obtain rfl := Option.some.inj hs
        rfl
      · cases hs
  case h_5 =>
    split at hs
    · obtain rfl := Option.some.inj hs
      rfl
    · split at hs
      · split at hs
        · obtain rfl := Option.some.inj hs
          rfl
        · cases hs
      · split at hs
        · cases hs
        · obtain rfl := Option.some.inj hs
          rfl
      · rw [if_pos rfl] at hs
        obtain rfl := Option.some.inj hs
        rfl
      · cases hs
  case h_6 =>
    obtain ⟨⟨s₁, next⟩, hs₁, rfl⟩ := Option.map_eq_some_iff.mp hs
    exact (section_rank hs₁).1.2
  case h_8 => cases hs
  all_goals
    obtain rfl := Option.some.inj hs
    rfl

theorem killed_next {l : Label} (hs : s.next pageLength true l = some s') : s'.killed = s.killed := by
  cases l with
  | listener a =>
      simp only [Server.next] at hs
      split at hs
      · cases hs
      · exact killed_listenerStep hs
  | slave i a =>
      simp only [Server.next] at hs
      split at hs
      · cases hs
      · exact killed_slaveStep hs
  | openOther fd n =>
      simp only [Server.next] at hs
      split at hs
      · obtain rfl := Option.some.inj hs
        rfl
      · cases hs
  | closeOther fd n =>
      simp only [Server.next] at hs
      split at hs
      · obtain rfl := Option.some.inj hs
        rfl
      · cases hs

theorem Server.Reachable.not_killed (h : Server.Reachable pageLength true s) : s.killed = false := by
  obtain ⟨kernel, -, hrun⟩ := h
  induction hrun with
  | refl => rfl
  | tail _ hstep ih =>
      obtain ⟨l, hl⟩ := hstep
      exact (killed_next hl).trans ih

theorem ending_of_joining {pc : ListenPc} (h : pc.joining = true) : pc.ending = true := by
  cases pc <;> first | rfl | cases h

/-- **The end of `ReapSlaves`.** Once the listener has shut all slaves down, the listener and the slaves make
a bounded number of steps, however their steps are interleaved and whatever the peers have sent. Until the
listener has returned, one of them can make a step without any peer, unless `SIGPIPE` has ended the
process, which it has not if it is ignored. -/
theorem listener_ends (hlength : 0 < pageLength) (h : Server.Reachable pageLength ignored s)
    (hjoining : s.pc.joining = true) {labels : List Label}
    (hrun : s.run pageLength ignored labels = some s') :
    labels.countP Label.ofThread ≤ s.workers * (pageLength + 22) + 2 ∧
      (s'.pc = .done ∨ s'.killed = true ∨ s'.GoesOn pageLength ignored) ∧
      (ignored = true → s'.killed = false) := by
  have hinv := h.inv
  obtain ⟨hrank, hjoining', hinv'⟩ := hinv.rank_run hlength hjoining hrun
  refine ⟨?_, ?_, ?_⟩
  · have hbound := Server.rank_le hinv.index pageLength
    omega
  · by_cases hdone : s'.pc = .done
    · exact Or.inl hdone
    · cases hkilled : s'.killed with
      | true => exact Or.inr (Or.inl rfl)
      | false => exact Or.inr (Or.inr (hinv'.goesOn hkilled (ending_of_joining hjoining') hdone))
  · intro hignored
    subst hignored
    exact (h.run hrun).not_killed

/-- One slave waits for the rest of a page, and one has found no memory. -/
theorem listener_ends_joining :
    ∃ s, (Server.start noFiles).run 1 true (collectedLabels.take 27) = some s ∧ s.pc = .join 0 ∧
      (s.child 0).pc = .receiving 4 0 1 ∧
      ∀ labels s', s.run 1 true labels = some s' →
        labels.countP Label.ofThread ≤ 48 ∧ (s'.pc = .done ∨ s'.GoesOn 1 true) := by
  have hrun : (Server.start noFiles).run 1 true (collectedLabels.take 27) = some _ := rfl
  refine ⟨_, hrun, rfl, rfl, fun labels s' hlabels => ?_⟩
  obtain ⟨hcount, hgoes, hkilled⟩ :=
    listener_ends Nat.zero_lt_one ((Server.Reachable.start fresh_noFiles).run hrun) rfl hlabels
  refine ⟨hcount, ?_⟩
  rcases hgoes with hdone | hdead | hgoes
  · exact Or.inl hdone
  · exact absurd ((hkilled rfl).symm.trans hdead) Bool.false_ne_true
  · exact Or.inr hgoes

end Runs

end StressAppTest.Network.Listener
