import StressAppTest.Network.SocketLifetime

/-!
# The steps of the listener

The listener goes from one slave to the next. Where it comes to a critical section, the slave stays as it
is (`Stage.Advances`); inside of one, the places of the listener have the same shape for each of the five
calls of `ShutdownSocket` and `CloseOwnedSocket` (`Inside`).

* `Inv.listenerStep`: a step of the listener keeps the invariant.
* `slave_sockets`: every call on the socket of a slave, and every call of the listener on its own socket,
  hits the file that it was meant for, in any interleaving and whoever uses the descriptors again; no
  connection is closed twice; a slave that has been deleted has run to its end.
-/

namespace StressAppTest.Network.Listener

open Descriptors GuardedHandle

/-! ## The listener goes on -/

/-- A stage that the listener may go to without a change of the slave. -/
def Stage.Advances (stage stage' : Stage) (c : Child) (shut : Bool) : Prop :=
  stage' = stage ∨ stage.created = true ∧ stage'.created = true ∧ stage.place = none ∧
    (stage'.place = none ∨ ∃ closing, stage'.place = some (closing, .lock)) ∧ stage'.Allows c shut

/-- The listener comes to a section, or to none. -/
theorem guarded_listener {stage stage' : Stage} {pc : SlavePc} {sock : Nat} {lock : Option Party}
    {life : Life} (h : Guarded (places stage pc) sock lock life) (hplace : stage.place = none)
    (hplace' : stage'.place = none ∨ ∃ closing, stage'.place = some (closing, .lock)) :
    Guarded (places stage' pc) sock lock life := by
  rw [places_listener stage]
  rcases hplace' with hplace' | ⟨closing, hplace'⟩
  · have hsame : Function.update (places stage pc) .listener none = places stage pc := by
      rw [← hplace]
      exact Function.update_eq_self ..
    rw [hplace', hsame]
    exact h
  · rw [hplace']
    exact h.enter closing hplace

theorem SlaveOk.advance {stage stage' : Stage} {c : Child} {life : Life} {shut : Bool}
    (h : SlaveOk stage c life shut) (hstage : stage.Advances stage' c shut) :
    SlaveOk stage' c life shut := by
  rcases hstage with rfl | ⟨hcreated, hcreated', hplace, hplace', hallows⟩
  · exact h
  · have hkept := h.kept hcreated
    exact Kept.ok ⟨guarded_listener hkept.guarded hplace hplace', hkept.copy, hkept.ended, hallows⟩
      hcreated'

section Listener

variable {s : Server}

theorem Inv.index_of (h : Inv s) {pc : ListenPc} (hpc : s.pc = pc) : pc.Index s.workers := hpc ▸ h.index

theorem Inv.socket_of (h : Inv s) {pc : ListenPc} (hpc : s.pc = pc) :
    pc.Socket s.sock (s.kernel.life .listening) := hpc ▸ h.socket

/-- The listener goes to another place. -/
theorem Inv.setPc (h : Inv s) {pc : ListenPc}
    (hstage : ∀ i, (s.stage i).Advances (pc.stage s.workers s.discarded i) (s.child i) (s.shut i))
    (hsocket : pc.Socket s.sock (s.kernel.life .listening)) (hindex : pc.Index s.workers)
    (hdiscarded : s.discarded = true → pc.ending = true) : Inv (s.setPc pc) :=
  ⟨h.kernel, h.sound, fun i => (h.slave i).advance (hstage i), hsocket, hindex, hdiscarded⟩

/-- A call of the listener on its own socket. -/
theorem Inv.use_listener (h : Inv s) (hlife : s.kernel.life .listening = .opened s.sock) (way : Way)
    (hway : way ≠ .shutdown) : Inv (s.use way .listening s.sock) := by
  have hshut : (s.use way .listening s.sock).shut = s.shut := by
    cases way <;> first | rfl | exact absurd rfl hway
  have hkernel : (s.use way .listening s.sock).kernel = s.kernel.call (.use way) .listening s.sock := rfl
  refine ⟨h.kernel.call .., h.sound.call h.kernel _ hlife, ?_, ?_, h.index, h.discarded⟩
  · intro i
    rw [hkernel, life_call_use rfl, hshut]
    exact h.slave i
  · rw [hkernel, life_call_use rfl]
    exact h.socket

/-- The places of the listener in a critical section of slave `i`. -/
structure Inside (inside : Section → ListenPc) (workers : Nat) (discarded : Bool) (i : Nat)
    (closing : Bool) (stage : Section → Stage) : Prop where
  self : ∀ place, (inside place).stage workers discarded i = stage place
  other : ∀ place place' j, j ≠ i →
    (inside place).stage workers discarded j = (inside place').stage workers discarded j
  place : ∀ place, (stage place).place = some (closing, place)
  created : ∀ place, (stage place).created = true
  ended : ∀ {place c shut}, (stage place).Allows c shut → closing = true → c.pc.copy = none
  allows : ∀ {place place' c c' shut shut'}, (stage place).Allows c shut → c'.pc = c.pc →
    c'.deleted = c.deleted → c'.sock = c.sock ∨ c'.sock = 0 → (shut = true → shut' = true) →
    (place' = .unlock → c'.sock = 0 ∨ shut' = true) → (stage place').Allows c' shut'
  socket : ∀ place sock life, (inside place).Socket sock life ↔ life = .opened sock
  index : ∀ place place', (inside place).Index workers → (inside place').Index workers
  ending : ∀ place place', (inside place).ending = (inside place').ending

theorem inside_shutdown {workers i : Nat} (hi : i < workers) (discarded : Bool) :
    Inside (.shutdown i) workers discarded i false .shutting where
  self place := by simp [ListenPc.stage, hi]
  other place place' j hj := by simp [ListenPc.stage, hj]
  place _ := rfl
  created _ := rfl
  ended _ := nofun
  allows h hpc hdeleted _ _ hunlock := ⟨⟨hpc ▸ h.1.1, hdeleted.trans h.1.2⟩, hunlock⟩
  socket _ _ _ := Iff.rfl
  index _ _ := id
  ending _ _ := rfl

theorem inside_close {workers i : Nat} (hi : i < workers) (discarded : Bool) :
    Inside (.close i) workers discarded i true .closing where
  self place := by simp [ListenPc.stage, hi]
  other place place' j hj := by simp [ListenPc.stage, hj]
  place _ := rfl
  created _ := rfl
  ended h _ := by rw [h.1]; rfl
  allows h hpc hdeleted _ _ _ := ⟨hpc.trans h.1, hdeleted.trans h.2⟩
  socket _ _ _ := Iff.rfl
  index _ _ := id
  ending _ _ := rfl

theorem inside_delete {workers i : Nat} (hi : i < workers) (discarded : Bool) :
    Inside (.delete i) workers discarded i true .deleting where
  self place := by simp [ListenPc.stage, hi]
  other place place' j hj := by simp [ListenPc.stage, hj]
  place _ := rfl
  created _ := rfl
  ended h _ := by rw [h.1]; rfl
  allows h hpc hdeleted _ _ _ := ⟨hpc.trans h.1, hdeleted.trans h.2⟩
  socket _ _ _ := Iff.rfl
  index _ _ := id
  ending _ _ := rfl

theorem inside_unspawned (workers : Nat) (discarded : Bool) :
    Inside .unspawned workers discarded workers true .unspawned where
  self place := by simp [ListenPc.stage]
  other place place' j hj := by simp [ListenPc.stage, hj]
  place _ := rfl
  created _ := rfl
  ended h _ := by rw [h.1]; rfl
  allows h hpc hdeleted _ _ _ := ⟨hpc.trans h.1, hdeleted.trans h.2⟩
  socket _ _ _ := Iff.rfl
  index _ _ := id
  ending _ _ := rfl

theorem inside_discard (workers : Nat) (discarded : Bool) :
    Inside .discard workers discarded workers true .discarding where
  self place := by simp [ListenPc.stage]
  other place place' j hj := by simp [ListenPc.stage, hj]
  place _ := rfl
  created _ := rfl
  ended h _ := by rw [h.1]; rfl
  allows h hpc hdeleted hsock _ _ := by
    refine ⟨hpc.trans h.1, hdeleted.trans h.2.1, ?_⟩
    rcases hsock with hsock | hsock
    · exact hsock.trans h.2.2
    · exact hsock
  socket _ _ _ := Iff.rfl
  index _ _ := id
  ending _ _ := rfl

/-- A section comes to its unlock without a descriptor, or after a call that was not a closing one. -/
theorem section_unlock {i : Nat} {party : Party} {closing : Bool} {place : Section} {s₁ : Server}
    (h : s.section_ i party closing place = some (s₁, some .unlock)) :
    (s₁.child i).sock = 0 ∨ place = .call ∧ closing = false := by
  cases place with
  | lock =>
      simp only [Server.section_] at h
      split at h <;> cases h
  | test =>
      simp only [Server.section_] at h
      split at h
      · cases h
      · next hzero =>
        cases h
        exact Or.inl (Nat.eq_zero_of_not_pos hzero)
  | call =>
      cases closing with
      | true => cases h
      | false => exact Or.inr ⟨rfl, rfl⟩
  | clear =>
      obtain ⟨rfl, -⟩ := Prod.ext_iff.mp (Option.some.inj h)
      left
      simp only [Server.setChild, Function.update_self]
  | unlock => cases h

section Inside

variable {inside : Section → ListenPc} {i : Nat} {closing : Bool} {stage : Section → Stage}
  {place : Section} {s₁ : Server}

theorem Inv.inside_kept (h : Inv s) (hin : Inside inside s.workers s.discarded i closing stage)
    (hpc : s.pc = inside place) :
    Kept (stage place) (s.child i) (s.kernel.life (.connection i)) (s.shut i) := by
  have hstage : s.stage i = stage place := by rw [Server.stage, hpc, hin.self]
  have hslave := h.slave i
  rw [hstage] at hslave
  exact hslave.kept (hin.created place)

/-- What a step of a section of the listener does to the slave. -/
theorem Inv.listener_sectioned (h : Inv s) (hin : Inside inside s.workers s.discarded i closing stage)
    (hpc : s.pc = inside place) {next : Option Section}
    (hs : s.section_ i .listener closing place = some (s₁, next)) :
    Sectioned s s₁ i closing place ∧
      Guarded (Function.update (places (stage place) (s₁.child i).pc) .listener
        (next.map fun place => (closing, place))) (s₁.child i).sock (s₁.child i).lock
        (s₁.kernel.life (.connection i)) ∧
      (∀ sock, (s₁.child i).pc.copy = some sock → sock = (s₁.child i).sock ∧ 0 < sock) ∧
      ((s₁.child i).pc.ended = true → (s₁.child i).sock = 0) := by
  have hkept := h.inside_kept hin hpc
  have hparty : places (stage place) (s.child i).pc .listener = some (closing, place) := hin.place place
  obtain ⟨hsec, hguarded⟩ := section_spec h.kernel h.sound hkept.guarded hparty hs
  rw [hsec.slavePc]
  refine ⟨hsec, hguarded, ?_, ?_⟩
  · intro sock hcopy
    rcases hsec.sock with hsock | ⟨hclear, -⟩
    · rw [hsock]
      exact hkept.copy sock hcopy
    · -- only a closing section sets the socket to 0, and then the slave does not work
      subst hclear
      have hclosing := (hkept.guarded.clear .listener closing hparty).1
      rw [hin.ended hkept.allows hclosing] at hcopy
      cases hcopy
  · intro hended
    rcases hsec.sock_or with hsock | hsock
    · exact hsock.trans (hkept.ended hended)
    · exact hsock

/-- The listener goes on in a section. -/
theorem Inv.listener_section (h : Inv s) (hin : Inside inside s.workers s.discarded i closing stage)
    (hpc : s.pc = inside place) {place' : Section}
    (hs : s.section_ i .listener closing place = some (s₁, some place')) :
    Inv (s₁.setPc (inside place')) := by
  have hallows := (h.inside_kept hin hpc).allows
  obtain ⟨hsec, hguarded, hcopy, hended⟩ := h.listener_sectioned hin hpc hs
  obtain ⟨hpc₁, hworkers, hdiscarded, hsock⟩ := hsec.fields
  have hstage (j : Nat) : (s₁.setPc (inside place')).stage j =
      (inside place').stage s.workers s.discarded j := by
    rw [← hworkers, ← hdiscarded]
    rfl
  refine ⟨hsec.kernel, hsec.sound, ?_, ?_, ?_, ?_⟩
  · intro j
    rw [hstage]
    by_cases hj : j = i
    · subst hj
      rw [hin.self]
      refine Kept.ok ⟨?_, hcopy, hended, ?_⟩ (hin.created place')
      · rw [places_listener (stage place), hin.place]
        exact hguarded
      · refine hin.allows hallows hsec.slavePc hsec.deleted hsec.sock_or hsec.kept ?_
        intro hunlock
        subst hunlock
        rcases section_unlock hs with hzero | ⟨hcall, hclosing⟩
        · exact Or.inl hzero
        · exact Or.inr (hsec.called hcall hclosing)
    · have hslave := h.slave j
      have hold : s.stage j = (inside place').stage s.workers s.discarded j := by
        rw [Server.stage, hpc]
        exact hin.other place place' j hj
      change SlaveOk _ (s₁.child j) (s₁.kernel.life (.connection j)) (s₁.shut j)
      rw [hsec.child j hj, hsec.shut j hj, hsec.life _ (by simpa using hj), ← hold]
      exact hslave
  · have hsocket := h.socket
    rw [hpc, hin.socket] at hsocket
    change (inside place').Socket s₁.sock (s₁.kernel.life .listening)
    rw [hin.socket, hsock, hsec.life .listening (by simp)]
    exact hsocket
  · have hindex := h.index
    rw [hpc] at hindex
    change (inside place').Index s₁.workers
    rw [hworkers]
    exact hin.index place place' hindex
  · intro hdisc
    have hold := h.discarded (hdiscarded.symm.trans hdisc)
    rw [hpc, hin.ending place place'] at hold
    exact hold

/-- The listener leaves a section; the slave is as it was, up to its socket, its lock and its deletion. -/
theorem Inv.after_section (h : Inv s) (hin : Inside inside s.workers s.discarded i closing stage)
    (hpc : s.pc = inside place) (hs : s.section_ i .listener closing place = some (s₁, none))
    {s' : Server} {c : Child}
    (hrest : s'.kernel = s₁.kernel ∧ s'.shut = s₁.shut ∧ s'.sock = s₁.sock ∧
      s'.child = Function.update s₁.child i c)
    (hsame : c.pc = (s₁.child i).pc ∧ c.sock = (s₁.child i).sock ∧ c.lock = (s₁.child i).lock)
    (hplace : (s'.stage i).place = none ∨ ∃ closing, (s'.stage i).place = some (closing, .lock))
    (hcreated : (s'.stage i).created = true)
    (hallows : Sectioned s s₁ i closing place → (stage .unlock).Allows (s.child i) (s.shut i) →
      (closing = true → (s₁.child i).sock = 0) → (s'.stage i).Allows c (s₁.shut i))
    (hother : ∀ j, j ≠ i → (s.stage j).Advances (s'.stage j) (s.child j) (s.shut j))
    (hsocket : ∀ sock life, s'.pc.Socket sock life ↔ life = .opened sock)
    (hindex : s'.pc.Index s'.workers) (hdiscarded : s'.discarded = true → s'.pc.ending = true) :
    Inv s' := by
  have hkept := h.inside_kept hin hpc
  obtain ⟨hsec, hguarded, hcopy, hended⟩ := h.listener_sectioned hin hpc hs
  obtain ⟨hkernel, hshut, hsock, hchild⟩ := hrest
  obtain ⟨hcpc, hcsock, hclock⟩ := hsame
  have hunlock := section_none hs
  subst hunlock
  have hparty : places (stage .unlock) (s.child i).pc .listener = some (closing, .unlock) :=
    hin.place .unlock
  have hzero : closing = true → (s₁.child i).sock = 0 := by
    intro hclosing
    subst hclosing
    have hzero := hkept.guarded.unlock .listener hparty
    rcases hsec.sock_or with hs₁ | hs₁
    · exact hs₁.trans hzero
    · exact hs₁
  have hself : s'.child i = c := by rw [hchild, Function.update_self]
  refine ⟨hkernel ▸ hsec.kernel, hkernel ▸ hsec.sound, ?_, ?_, hindex, hdiscarded⟩
  · intro j
    rw [hkernel, hshut]
    by_cases hj : j = i
    · subst hj
      rw [hself]
      refine Kept.ok ⟨?_, ?_, ?_, hallows hsec hkept.allows hzero⟩ hcreated
      · have hplaces : Function.update (places (stage .unlock) (s₁.child j).pc) .listener none =
            places .running c.pc := by
          rw [hcpc]
          exact (@places_listener (stage .unlock) .running _).symm
        have hguarded' : Guarded (places .running c.pc) c.sock c.lock
            (s₁.kernel.life (.connection j)) := by
          rw [← hplaces, hcsock, hclock]
          exact hguarded
        exact guarded_listener hguarded' rfl hplace
      · rw [hcpc, hcsock]
        exact hcopy
      · rw [hcpc, hcsock]
        exact hended
    · have hchild' : s'.child j = s.child j := by
        rw [hchild, Function.update_of_ne hj, hsec.child j hj]
      rw [hchild', hsec.life _ (by simpa using hj), hsec.shut j hj]
      exact (h.slave j).advance (hother j hj)
  · have hold := h.socket
    rw [hpc, hin.socket] at hold
    rw [hsocket, hkernel, hsock, hsec.fields.2.2.2, hsec.life .listening (by simp)]
    exact hold

end Inside

/-! ## The stages of the slaves -/

/-- The listener is in the loop of `Work`, and not with a slave. -/
def ListenPc.atLoop : ListenPc → Bool
  | .loop | .wait | .accept => true
  | _ => false

theorem stage_atLoop {pc : ListenPc} (hpc : pc.atLoop = true) (workers : Nat) (discarded : Bool)
    (i : Nat) : pc.stage workers discarded i =
      if i < workers then .running else if i = workers ∧ discarded = true then .discarded else .absent := by
  unfold ListenPc.stage
  cases pc with
  | loop | wait | accept =>
      by_cases hlt : i < workers
      · simp [hlt]
      · by_cases heq : i = workers <;> simp [hlt, heq]
  | _ => cases hpc

theorem socket_atLoop {pc : ListenPc} (hpc : pc.atLoop = true) {sock : Nat} {life : Life}
    (h : pc.Socket sock life) : life = .opened sock := by
  cases pc with
  | loop | wait | accept => exact h
  | _ => cases hpc

theorem shutdownFrom_lt {i : Nat} (hi : i < s.workers) : s.shutdownFrom i = .shutdown i .lock :=
  if_pos hi

theorem shutdownFrom_end {i : Nat} (hi : ¬ i < s.workers) : s.shutdownFrom i = s.joinFrom 0 :=
  if_neg hi

theorem joinFrom_lt {i : Nat} (hi : i < s.workers) : s.joinFrom i = .join i := if_pos hi

theorem joinFrom_end {i : Nat} (hi : ¬ i < s.workers) : s.joinFrom i = s.deleteFrom 0 := if_neg hi

theorem deleteFrom_lt {i : Nat} (hi : i < s.workers) : s.deleteFrom i = .delete i .lock := if_pos hi

theorem deleteFrom_end {i : Nat} (hi : ¬ i < s.workers) : s.deleteFrom i = .closeSocket := if_neg hi

/-- The first place of `ReapSlaves`, if there are no slaves. -/
theorem shutdownFrom_none (hzero : ¬ 0 < s.workers) : s.shutdownFrom 0 = .closeSocket := by
  rw [shutdownFrom_end hzero, joinFrom_end hzero, deleteFrom_end hzero]

/-- A slave that runs may be shut down. -/
theorem advances_shutting {c : Child} {shut : Bool} (h : Stage.Allows .running c shut) :
    Stage.Advances .running (.shutting .lock) c shut :=
  Or.inr ⟨rfl, rfl, rfl, Or.inr ⟨false, rfl⟩, h, nofun⟩

theorem ending_atLoop {pc : ListenPc} (hpc : pc.atLoop = true) : pc.ending = false := by
  cases pc with
  | loop | wait | accept => rfl
  | _ => cases hpc

theorem Inv.not_discarded (h : Inv s) (hpc : s.pc.ending = false) : s.discarded = false := by
  by_contra hdisc
  have hending := h.discarded (by simpa using hdisc)
  exact absurd (hpc.symm.trans hending) Bool.false_ne_true

theorem stage_lt {pc : ListenPc} (hpc : pc.ending = false) {workers i : Nat} (hi : i < workers)
    (discarded : Bool) : pc.stage workers discarded i = .running := by
  unfold ListenPc.stage
  rw [if_pos hi]
  cases pc <;> first | rfl | cases hpc

theorem stage_gt {pc : ListenPc} {workers i : Nat} (hi : workers < i) (discarded : Bool) :
    pc.stage workers discarded i = .absent := by
  unfold ListenPc.stage
  rw [if_neg (by omega), if_neg (by omega)]

theorem stage_ending {pc : ListenPc} (hpc : pc.ending = true) (workers : Nat) (discarded : Bool) :
    pc.stage workers discarded workers = if discarded then .discarded else .absent := by
  unfold ListenPc.stage
  rw [if_neg (Nat.lt_irrefl _), if_pos rfl]
  cases pc <;> first | rfl | cases hpc

/-- A place at the start of a pass of one of the last loops, or after them. -/
structure Going (workers : Nat) (pc : ListenPc) : Prop where
  ending : pc.ending = true
  socket : ∀ sock life, pc.Socket sock life ↔ life = .opened sock
  index : pc.Index workers

theorem going_deleteFrom (s : Server) (i : Nat) : Going s.workers (s.deleteFrom i) := by
  unfold Server.deleteFrom
  split
  · next hi => exact ⟨rfl, fun _ _ => Iff.rfl, hi⟩
  · exact ⟨rfl, fun _ _ => Iff.rfl, trivial⟩

theorem going_joinFrom (s : Server) (i : Nat) : Going s.workers (s.joinFrom i) := by
  unfold Server.joinFrom
  split
  · next hi => exact ⟨rfl, fun _ _ => Iff.rfl, hi⟩
  · exact going_deleteFrom s 0

theorem going_shutdownFrom (s : Server) (i : Nat) : Going s.workers (s.shutdownFrom i) := by
  unfold Server.shutdownFrom
  split
  · next hi => exact ⟨rfl, fun _ _ => Iff.rfl, hi⟩
  · exact going_joinFrom s 0

/-- The slaves when the listener leaves the loop. -/
theorem Inv.advances_reap (h : Inv s) (hpc : s.pc.ending = false) {i : Nat} (hi : i ≠ s.workers)
    (discarded : Bool) : (s.stage i).Advances ((s.shutdownFrom 0).stage s.workers discarded i) (s.child i)
      (s.shut i) := by
  rcases Nat.lt_or_gt_of_ne hi with hlt | hgt
  · have hallows := ((h.slave i).kept (by rw [Server.stage, stage_lt hpc hlt]; rfl)).allows
    have hzero : 0 < s.workers := by omega
    rw [Server.stage, stage_lt hpc hlt] at hallows ⊢
    rw [shutdownFrom_lt hzero]
    unfold ListenPc.stage
    rw [if_pos hlt]
    by_cases hi : i = 0
    · subst hi
      exact advances_shutting hallows
    · left
      simp [hi]
  · left
    rw [Server.stage, stage_gt hgt, stage_gt hgt]

theorem Inv.setPc_going (h : Inv s) (hlife : s.kernel.life .listening = .opened s.sock) {pc : ListenPc}
    (hpc : Going s.workers pc)
    (hstage : ∀ i, (s.stage i).Advances (pc.stage s.workers s.discarded i) (s.child i) (s.shut i)) :
    Inv (s.setPc pc) :=
  h.setPc hstage ((hpc.socket ..).mpr hlife) hpc.index fun _ => hpc.ending

/-- The listener leaves the loop. -/
theorem Inv.reap (h : Inv s) (hpc : s.pc.atLoop = true) : Inv (s.setPc (s.shutdownFrom 0)) := by
  have hsocket := socket_atLoop hpc h.socket
  have hending := ending_atLoop hpc
  have hgoing := going_shutdownFrom s 0
  refine h.setPc_going hsocket hgoing ?_
  intro i
  by_cases hi : i = s.workers
  · left
    subst hi
    rw [Server.stage, stage_atLoop hpc, stage_ending hgoing.ending,
      if_neg (Nat.lt_irrefl _)]
    simp
  · exact h.advances_reap hending hi _

theorem Inv.abandon (h : Inv s) (hpc : s.pc.atLoop = true) (fault : Fault) : Inv (s.abandon fault) := by
  have hreap := h.reap hpc
  exact ⟨hreap.kernel, hreap.sound, hreap.slave, hreap.socket, hreap.index, hreap.discarded⟩

/-! ### The slaves in the last loops -/

/-- The end of `ShutdownSocket` of slave `i`, for the others. -/
theorem Inv.advances_shutdown (h : Inv s) {i j : Nat} (hpc : s.pc = .shutdown i .unlock) (hj : j ≠ i) :
    (s.stage j).Advances ((s.shutdownFrom (i + 1)).stage s.workers s.discarded j) (s.child j)
      (s.shut j) := by
  have hi : i < s.workers := h.index_of hpc
  have hslave := h.slave j
  rw [Server.stage, hpc] at hslave ⊢
  by_cases hlt : j < s.workers
  · by_cases hnext : i + 1 < s.workers
    · rw [shutdownFrom_lt hnext]
      by_cases hji : j = i + 1
      · have hrunning : (ListenPc.shutdown i .unlock).stage s.workers s.discarded j = .running := by
          simp [ListenPc.stage, hji, show ¬ i + 1 < i by omega, hnext]
        have hshutting : (ListenPc.shutdown (i + 1) .lock).stage s.workers s.discarded j =
            .shutting .lock := by
          simp [ListenPc.stage, hji, hnext]
        rw [hrunning] at hslave ⊢
        rw [hshutting]
        exact advances_shutting (hslave.kept rfl).allows
      · left
        by_cases hlow : j < i
        · simp [ListenPc.stage, hlt, hlow, show j < i + 1 by omega]
        · simp [ListenPc.stage, hlt, hlow, hj, hji, show ¬ j < i + 1 by omega]
    · rw [shutdownFrom_end hnext, joinFrom_lt (by omega)]
      left
      simp [ListenPc.stage, hlt, show j < i by omega]
  · left
    have hother : (s.shutdownFrom (i + 1)).ending = true := (going_shutdownFrom ..).ending
    by_cases heq : j = s.workers
    · subst heq
      rw [stage_ending hother, stage_ending rfl]
    · rw [stage_gt (by omega), stage_gt (by omega)]

/-- The end of the destructor of slave `i`, for the others. -/
theorem Inv.advances_delete (h : Inv s) {i j : Nat} (hpc : s.pc = .delete i .unlock) (hj : j ≠ i) :
    (s.stage j).Advances ((s.deleteFrom (i + 1)).stage s.workers s.discarded j) (s.child j)
      (s.shut j) := by
  have hi : i < s.workers := h.index_of hpc
  have hslave := h.slave j
  rw [Server.stage, hpc] at hslave ⊢
  by_cases hlt : j < s.workers
  · by_cases hnext : i + 1 < s.workers
    · rw [deleteFrom_lt hnext]
      by_cases hji : j = i + 1
      · have hreaped : (ListenPc.delete i .unlock).stage s.workers s.discarded j = .reaped := by
          simp [ListenPc.stage, hji, show ¬ i + 1 < i by omega, hnext]
        have hdeleting : (ListenPc.delete (i + 1) .lock).stage s.workers s.discarded j =
            .deleting .lock := by
          simp [ListenPc.stage, hji, hnext]
        rw [hreaped] at hslave ⊢
        rw [hdeleting]
        exact Or.inr ⟨rfl, rfl, rfl, Or.inr ⟨true, rfl⟩, (hslave.kept rfl).allows⟩
      · left
        by_cases hlow : j < i
        · simp [ListenPc.stage, hlt, hlow, show j < i + 1 by omega]
        · simp [ListenPc.stage, hlt, hlow, hj, hji, show ¬ j < i + 1 by omega]
    · rw [deleteFrom_end hnext]
      left
      simp [ListenPc.stage, hlt, show j < i by omega]
  · left
    have hother : (s.deleteFrom (i + 1)).ending = true := (going_deleteFrom ..).ending
    by_cases heq : j = s.workers
    · subst heq
      rw [stage_ending hother, stage_ending rfl]
    · rw [stage_gt (by omega), stage_gt (by omega)]

/-- `pthread_join` has returned. -/
theorem Inv.join (h : Inv s) {i : Nat} (hpc : s.pc = .join i) (hexited : (s.child i).pc = .exited) :
    Inv (s.setPc (.close i .lock)) := by
  have hi : i < s.workers := h.index_of hpc
  refine h.setPc_going (h.socket_of hpc) ⟨rfl, fun _ _ => Iff.rfl, hi⟩ ?_
  intro j
  have hslave := h.slave j
  rw [Server.stage, hpc] at hslave ⊢
  by_cases hji : j = i
  · subst hji
    have hshut : (ListenPc.join j).stage s.workers s.discarded j = .shutDown := by
      simp [ListenPc.stage, hi]
    have hclosing : (ListenPc.close j .lock).stage s.workers s.discarded j = .closing .lock := by
      simp [ListenPc.stage, hi]
    rw [hshut] at hslave ⊢
    rw [hclosing]
    exact Or.inr ⟨rfl, rfl, rfl, Or.inr ⟨true, rfl⟩, hexited, (hslave.kept rfl).allows.1.2⟩
  · left
    simp [ListenPc.stage, hji]

/-- The status of a slave has been collected. -/
theorem Inv.collect (h : Inv s) {i : Nat} (hpc : s.pc = .collect i) :
    Inv (s.setPc (s.joinFrom (i + 1))) := by
  have hi : i < s.workers := h.index_of hpc
  refine h.setPc_going (h.socket_of hpc) (going_joinFrom ..) ?_
  intro j
  have hslave := h.slave j
  rw [Server.stage, hpc] at hslave ⊢
  by_cases hnext : i + 1 < s.workers
  · rw [joinFrom_lt hnext]
    left
    simp [ListenPc.stage, Nat.lt_succ_iff]
  · rw [joinFrom_end hnext, deleteFrom_lt (by omega)]
    by_cases hlt : j < s.workers
    · have hreaped : (ListenPc.collect i).stage s.workers s.discarded j = .reaped := by
        simp [ListenPc.stage, hlt, show j ≤ i by omega]
      rw [hreaped] at hslave ⊢
      by_cases hzero : j = 0
      · subst hzero
        have hdeleting : (ListenPc.delete 0 .lock).stage s.workers s.discarded 0 = .deleting .lock := by
          simp [ListenPc.stage, hlt]
        rw [hdeleting]
        exact Or.inr ⟨rfl, rfl, rfl, Or.inr ⟨true, rfl⟩, (hslave.kept rfl).allows⟩
      · left
        simp [ListenPc.stage, hlt, hzero]
    · left
      simp [ListenPc.stage, hlt]

/-! ### The ends of the sections -/

section Ends

variable {s₁ : Server}

theorem Inv.unspawned_end (h : Inv s) {place : Section} (hpc : s.pc = .unspawned place)
    (hs : s.section_ s.workers .listener true place = some (s₁, none)) :
    Inv (s₁.setPc (.discard .lock)) := by
  have hin := inside_unspawned s.workers s.discarded
  obtain ⟨hsec, -⟩ := h.listener_sectioned hin hpc hs
  obtain ⟨-, hworkers, hdiscarded, -⟩ := hsec.fields
  have hstage (j : Nat) : (s₁.setPc (.discard .lock)).stage j =
      (ListenPc.discard .lock).stage s.workers s.discarded j := by
    rw [← hworkers, ← hdiscarded]
    rfl
  have hself : (s₁.setPc (.discard .lock)).stage s.workers = .discarding .lock := by
    rw [hstage, (inside_discard ..).self]
  refine h.after_section hin hpc hs ⟨rfl, rfl, rfl, (Function.update_eq_self ..).symm⟩ ⟨rfl, rfl, rfl⟩
    (hself ▸ Or.inr ⟨true, rfl⟩) (hself ▸ rfl) ?_ ?_ (fun _ _ => Iff.rfl) trivial ?_
  · intro hsec hallows hzero
    rw [hself]
    exact ⟨hsec.slavePc.trans hallows.1, hsec.deleted.trans hallows.2, hzero rfl⟩
  · intro j hj
    left
    rw [hstage, Server.stage, hpc]
    simp [ListenPc.stage, hj]
  · intro hdisc
    have hold := h.discarded (hdiscarded.symm.trans hdisc)
    rw [hpc] at hold
    exact hold

theorem Inv.discard_end (h : Inv s) {place : Section} (hpc : s.pc = .discard place)
    (hs : s.section_ s.workers .listener true place = some (s₁, none)) :
    Inv (Server.abandon { s₁.setChild s₁.workers { s₁.child s₁.workers with deleted := true } with
      discarded := true } .spawn) := by
  have hin := inside_discard s.workers s.discarded
  obtain ⟨hsec, -⟩ := h.listener_sectioned hin hpc hs
  obtain ⟨-, hworkers, -, -⟩ := hsec.fields
  rw [hworkers]
  generalize hs' : Server.abandon { s₁.setChild s.workers { s₁.child s.workers with deleted := true } with
    discarded := true } .spawn = s'
  have hpc' : s'.pc = s.shutdownFrom 0 := by
    rw [← hs']
    simp only [Server.abandon, Server.setChild, Server.shutdownFrom, Server.joinFrom, Server.deleteFrom,
      hworkers]
  have hgoing := going_shutdownFrom s 0
  have hworkers' : s'.workers = s.workers := by rw [← hs']; exact hworkers
  have hdiscarded' : s'.discarded = true := by rw [← hs']; rfl
  have hstage (j : Nat) : s'.stage j = (s.shutdownFrom 0).stage s.workers true j := by
    rw [Server.stage, hpc', hworkers', hdiscarded']
  have hself : s'.stage s.workers = .discarded := by
    rw [hstage, stage_ending hgoing.ending]
    rfl
  refine h.after_section (c := { s₁.child s.workers with deleted := true }) hin hpc hs ?_ ⟨rfl, rfl, rfl⟩
    (hself ▸ Or.inl rfl) (hself ▸ rfl) ?_ ?_ ?_ ?_ ?_
  · rw [← hs']
    exact ⟨rfl, rfl, rfl, rfl⟩
  · intro hsec hallows hzero
    rw [hself]
    exact ⟨hsec.slavePc.trans hallows.1, rfl, hzero rfl⟩
  · intro j hj
    rw [hstage]
    exact h.advances_reap (by rw [hpc]; rfl) hj true
  · rw [hpc']
    exact hgoing.socket
  · rw [hpc', hworkers']
    exact hgoing.index
  · intro _
    rw [hpc']
    exact hgoing.ending

theorem Inv.shutdown_end (h : Inv s) {i : Nat} {place : Section} (hpc : s.pc = .shutdown i place)
    (hs : s.section_ i .listener false place = some (s₁, none)) :
    Inv (s₁.setPc (s₁.shutdownFrom (i + 1))) := by
  have hi : i < s.workers := h.index_of hpc
  have hplace := section_none hs
  subst hplace
  have hin := inside_shutdown hi s.discarded
  obtain ⟨hsec, -⟩ := h.listener_sectioned hin hpc hs
  obtain ⟨-, hworkers, hdiscarded, -⟩ := hsec.fields
  have hfrom : s₁.shutdownFrom (i + 1) = s.shutdownFrom (i + 1) := by
    simp only [Server.shutdownFrom, Server.joinFrom, Server.deleteFrom, hworkers]
  rw [hfrom]
  have hgoing := going_shutdownFrom s (i + 1)
  have hstage (j : Nat) : (s₁.setPc (s.shutdownFrom (i + 1))).stage j =
      (s.shutdownFrom (i + 1)).stage s.workers s.discarded j := by
    rw [← hworkers, ← hdiscarded]
    rfl
  have hself : (s₁.setPc (s.shutdownFrom (i + 1))).stage i = .shutDown := by
    rw [hstage]
    by_cases hnext : i + 1 < s.workers
    · rw [shutdownFrom_lt hnext]
      simp [ListenPc.stage, hi]
    · rw [shutdownFrom_end hnext, joinFrom_lt (by omega)]
      simp [ListenPc.stage, hi]
  refine h.after_section hin hpc hs ⟨rfl, rfl, rfl, (Function.update_eq_self ..).symm⟩ ⟨rfl, rfl, rfl⟩
    (hself ▸ Or.inl rfl) (hself ▸ rfl) ?_ ?_ hgoing.socket ?_ (fun _ => hgoing.ending)
  · intro hsec hallows _
    rw [hself]
    refine ⟨⟨hsec.slavePc ▸ hallows.1.1, hsec.deleted.trans hallows.1.2⟩, ?_⟩
    rcases hsec.sock_or with hsock | hsock
    · exact (hallows.2 rfl).imp hsock.trans hsec.kept
    · exact Or.inl hsock
  · intro j hj
    rw [hstage]
    exact h.advances_shutdown hpc hj
  · change (s.shutdownFrom (i + 1)).Index s₁.workers
    rw [hworkers]
    exact hgoing.index

theorem Inv.close_end (h : Inv s) {i : Nat} {place : Section} (hpc : s.pc = .close i place)
    (hs : s.section_ i .listener true place = some (s₁, none)) : Inv (s₁.setPc (.collect i)) := by
  have hi : i < s.workers := h.index_of hpc
  have hin := inside_close hi s.discarded
  obtain ⟨hsec, -⟩ := h.listener_sectioned hin hpc hs
  obtain ⟨-, hworkers, hdiscarded, -⟩ := hsec.fields
  have hstage (j : Nat) : (s₁.setPc (.collect i)).stage j =
      (ListenPc.collect i).stage s.workers s.discarded j := by
    rw [← hworkers, ← hdiscarded]
    rfl
  have hself : (s₁.setPc (.collect i)).stage i = .reaped := by
    rw [hstage]
    simp [ListenPc.stage, hi]
  refine h.after_section hin hpc hs ⟨rfl, rfl, rfl, (Function.update_eq_self ..).symm⟩ ⟨rfl, rfl, rfl⟩
    (hself ▸ Or.inl rfl) (hself ▸ rfl) ?_ ?_ (fun _ _ => Iff.rfl) (hworkers.symm ▸ hi) (fun _ => rfl)
  · intro hsec hallows _
    rw [hself]
    exact ⟨hsec.slavePc.trans hallows.1, hsec.deleted.trans hallows.2⟩
  · intro j hj
    left
    rw [hstage, Server.stage, hpc]
    simp [ListenPc.stage, hj, Nat.le_iff_lt_or_eq]

theorem Inv.delete_end (h : Inv s) {i : Nat} {place : Section} (hpc : s.pc = .delete i place)
    (hs : s.section_ i .listener true place = some (s₁, none)) :
    Inv ((s₁.setChild i { s₁.child i with deleted := true }).setPc (s₁.deleteFrom (i + 1))) := by
  have hi : i < s.workers := h.index_of hpc
  have hplace := section_none hs
  subst hplace
  have hin := inside_delete hi s.discarded
  obtain ⟨hsec, -⟩ := h.listener_sectioned hin hpc hs
  obtain ⟨-, hworkers, hdiscarded, -⟩ := hsec.fields
  have hfrom : s₁.deleteFrom (i + 1) = s.deleteFrom (i + 1) := by
    simp only [Server.deleteFrom, hworkers]
  rw [hfrom]
  have hgoing := going_deleteFrom s (i + 1)
  have hstage (j : Nat) :
      ((s₁.setChild i { s₁.child i with deleted := true }).setPc (s.deleteFrom (i + 1))).stage j =
        (s.deleteFrom (i + 1)).stage s.workers s.discarded j := by
    rw [← hworkers, ← hdiscarded]
    rfl
  have hself :
      ((s₁.setChild i { s₁.child i with deleted := true }).setPc (s.deleteFrom (i + 1))).stage i =
        .deleted := by
    rw [hstage]
    by_cases hnext : i + 1 < s.workers
    · rw [deleteFrom_lt hnext]
      simp [ListenPc.stage, hi]
    · rw [deleteFrom_end hnext]
      simp [ListenPc.stage, hi]
  refine h.after_section (c := { s₁.child i with deleted := true }) hin hpc hs ⟨rfl, rfl, rfl, rfl⟩
    ⟨rfl, rfl, rfl⟩ (hself ▸ Or.inl rfl) (hself ▸ rfl) ?_ ?_ hgoing.socket ?_ (fun _ => hgoing.ending)
  · intro hsec hallows _
    rw [hself]
    exact ⟨hsec.slavePc.trans hallows.1, rfl⟩
  · intro j hj
    rw [hstage]
    exact h.advances_delete hpc hj
  · change (s.deleteFrom (i + 1)).Index s₁.workers
    rw [hworkers]
    exact hgoing.index

end Ends

/-! ### The other steps -/

theorem Inv.createSocket (h : Inv s) (hpc : s.pc = .createSocket) {fd : Nat}
    (hfree : s.kernel.file fd = none) :
    Inv { s with pc := .listen, sock := fd, kernel := s.kernel.openAt fd .listening } := by
  have hunborn : s.kernel.life .listening = .unborn := h.socket_of hpc
  have hnone : s.workers = 0 := h.index_of hpc
  refine ⟨h.kernel.openAt hfree hunborn, h.sound, ?_, ?_, hnone, ?_⟩
  · intro i
    have hstage : ListenPc.listen.stage s.workers s.discarded i = s.stage i := by
      rw [Server.stage, hpc]
      simp [ListenPc.stage]
    have hlife : (s.kernel.openAt fd .listening).life (.connection i) =
        s.kernel.life (.connection i) := life_openAt_of_ne (by simp)
    change SlaveOk (ListenPc.listen.stage s.workers s.discarded i) (s.child i)
      ((s.kernel.openAt fd .listening).life (.connection i)) (s.shut i)
    rw [hstage, hlife]
    exact h.slave i
  · exact life_openAt_self
  · intro hdisc
    have hold := h.discarded hdisc
    rw [hpc] at hold
    exact hold

/-- `socket` has failed. -/
theorem Inv.noSocket (h : Inv s) (hpc : s.pc = .createSocket) : Inv (s.setPc .done) := by
  have hnone : s.workers = 0 := h.index_of hpc
  refine h.setPc ?_ (Or.inl (h.socket_of hpc)) trivial fun _ => rfl
  intro i
  left
  rw [Server.stage, hpc]
  simp [ListenPc.stage, hnone]

theorem Inv.toLoop (h : Inv s) {pc : ListenPc} (hpc : s.pc.atLoop = true ∨ s.pc = .listen)
    (hpc' : pc.atLoop = true) : Inv (s.setPc pc) := by
  have hsocket : s.kernel.life .listening = .opened s.sock := by
    rcases hpc with hpc | hpc
    · exact socket_atLoop hpc h.socket
    · exact h.socket_of hpc
  have hdisc : s.discarded = false := by
    rcases hpc with hpc | hpc
    · exact h.not_discarded (ending_atLoop hpc)
    · exact h.not_discarded (by rw [hpc]; rfl)
  refine h.setPc ?_ ?_ ?_ ?_
  · intro i
    left
    rw [stage_atLoop hpc']
    rcases hpc with hpc | hpc
    · rw [Server.stage, stage_atLoop hpc]
    · rw [Server.stage, hpc]
      unfold ListenPc.stage
      by_cases hlt : i < s.workers
      · simp [hlt]
      · by_cases heq : i = s.workers <;> simp [hlt, heq]
  · cases pc with
    | loop | wait | accept => exact hsocket
    | _ => cases hpc'
  · cases pc with
    | loop | wait | accept => trivial
    | _ => cases hpc'
  · intro hd
    rw [hdisc] at hd
    cases hd

/-- `Listen` has failed. -/
theorem Inv.noListen (h : Inv s) (hpc : s.pc = .listen) : Inv (s.setPc .closeSocket) := by
  have hnone : s.workers = 0 := h.index_of hpc
  have hlife : s.kernel.life .listening = .opened s.sock := h.socket_of hpc
  refine h.setPc ?_ hlife trivial fun _ => rfl
  intro i
  left
  rw [Server.stage, hpc]
  simp [ListenPc.stage, hnone]

/-- `accept` has returned a new descriptor. -/
theorem Inv.accept (h : Inv s) (hpc : s.pc = .accept) {fd : Nat} (hfree : s.kernel.file fd = none) :
    Inv { s with pc := .spawn fd, kernel := s.kernel.openAt fd (.connection s.workers) } := by
  have hdisc := h.not_discarded (by rw [hpc]; rfl)
  have habsent : s.stage s.workers = .absent := by
    rw [Server.stage, hpc]
    simp [ListenPc.stage, hdisc]
  have hunborn := (h.slave s.workers).absent habsent
  refine ⟨h.kernel.openAt hfree hunborn, h.sound, ?_, ?_, trivial, ?_⟩
  · intro i
    change SlaveOk ((ListenPc.spawn fd).stage s.workers s.discarded i) (s.child i)
      ((s.kernel.openAt fd (.connection s.workers)).life (.connection i)) (s.shut i)
    by_cases hi : i = s.workers
    · subst hi
      have hstage : (ListenPc.spawn fd).stage s.workers s.discarded s.workers = .accepted fd := by
        simp [ListenPc.stage]
      have hlife : (s.kernel.openAt fd (.connection s.workers)).life (.connection s.workers) =
          .opened fd := life_openAt_self
      rw [hstage, hlife]
      refine ⟨by simp, ?_, ?_, fun hrun => by cases hrun⟩
      · intro newsock hnew
        cases hnew
        rfl
      · intro _
        exact (h.slave s.workers).unborn (by rw [habsent]; rfl)
    · have hstage : (ListenPc.spawn fd).stage s.workers s.discarded i = s.stage i := by
        rw [Server.stage, hpc]
        simp [ListenPc.stage, hi]
      have hlife : (s.kernel.openAt fd (.connection s.workers)).life (.connection i) =
          s.kernel.life (.connection i) := life_openAt_of_ne (by simpa using hi)
      rw [hstage, hlife]
      exact h.slave i
  · change (s.kernel.openAt fd (.connection s.workers)).life .listening = .opened s.sock
    exact (life_openAt_of_ne (by simp)).trans (h.socket_of hpc)
  · intro hd
    rw [hdisc] at hd
    cases hd

/-- A new slave under an open descriptor, which the listener may be about to close. -/
theorem kept_new {stage : Stage} {newsock : Nat} {created shut : Bool}
    (hplace : stage.place = none ∨ ∃ closing, stage.place = some (closing, .lock))
    (hallows : stage.Allows (newChild newsock created) shut) :
    Kept stage (newChild newsock created) (.opened newsock) shut := by
  have hnone : places .running (newChild newsock created).pc = fun _ => none := by
    funext p
    cases p <;> cases created <;> rfl
  have hguarded : Guarded (places .running (newChild newsock created).pc) newsock none
      (.opened newsock) := by
    rw [hnone]
    exact guarded_new newsock
  refine ⟨guarded_listener hguarded rfl hplace, ?_, ?_, hallows⟩
  · intro sock hcopy
    cases created <;> cases hcopy
  · intro hended
    cases created <;> cases hended

theorem Inv.spawn (h : Inv s) {newsock : Nat} (hpc : s.pc = .spawn newsock) (created : Bool) :
    Inv (let s := s.setChild s.workers (newChild newsock created)
      if created then { s with pc := .loop, workers := s.workers + 1 }
      else s.setPc (.unspawned .lock)) := by
  have hdisc := h.not_discarded (by rw [hpc]; rfl)
  have haccepted : s.stage s.workers = .accepted newsock := by
    rw [Server.stage, hpc]
    simp [ListenPc.stage]
  have hlife := (h.slave s.workers).accepted newsock haccepted
  have hsocket : s.kernel.life .listening = .opened s.sock := h.socket_of hpc
  have hother {i : Nat} (hi : i ≠ s.workers) :
      (s.setChild s.workers (newChild newsock created)).child i = s.child i := Function.update_of_ne hi _ _
  have hself : (s.setChild s.workers (newChild newsock created)).child s.workers =
      newChild newsock created := Function.update_self ..
  cases created with
  | true =>
      refine ⟨h.kernel, h.sound, ?_, hsocket, trivial, ?_⟩
      · intro i
        change SlaveOk (ListenPc.loop.stage (s.workers + 1) s.discarded i)
          ((s.setChild s.workers (newChild newsock true)).child i) (s.kernel.life (.connection i)) (s.shut i)
        rw [stage_atLoop rfl]
        by_cases hi : i = s.workers
        · subst hi
          rw [hself, hlife, if_pos (Nat.lt_succ_self _)]
          have hkept : Kept .running (newChild newsock true) (.opened newsock) (s.shut s.workers) :=
            kept_new (Or.inl rfl) ⟨(fun hunspawned => by cases hunspawned), rfl⟩
          exact hkept.ok rfl
        · have hslave := h.slave i
          rw [hother hi]
          rw [Server.stage, hpc] at hslave
          by_cases hlt : i < s.workers
          · rw [if_pos (by omega)]
            rw [stage_lt rfl hlt] at hslave
            exact hslave
          · rw [if_neg (by omega), if_neg (by simp [hdisc])]
            rw [stage_gt (by omega)] at hslave
            exact hslave
      · intro hd
        exact absurd (hdisc.symm.trans hd) Bool.false_ne_true
  | false =>
      refine ⟨h.kernel, h.sound, ?_, hsocket, trivial, ?_⟩
      · intro i
        change SlaveOk ((ListenPc.unspawned .lock).stage s.workers s.discarded i)
          ((s.setChild s.workers (newChild newsock false)).child i) (s.kernel.life (.connection i)) (s.shut i)
        by_cases hi : i = s.workers
        · subst hi
          rw [hself, hlife, (inside_unspawned ..).self]
          have hkept : Kept (.unspawned .lock) (newChild newsock false) (.opened newsock)
              (s.shut s.workers) := kept_new (Or.inr ⟨true, rfl⟩) ⟨rfl, rfl⟩
          exact hkept.ok rfl
        · have hslave := h.slave i
          have hstage : (ListenPc.unspawned .lock).stage s.workers s.discarded i = s.stage i := by
            rw [Server.stage, hpc]
            simp [ListenPc.stage, hi]
          rw [hother hi, hstage]
          exact hslave
      · intro hd
        exact absurd (hdisc.symm.trans hd) Bool.false_ne_true

/-- The last `CloseSocket`. -/
theorem Inv.closeSocket (h : Inv s) (hpc : s.pc = .closeSocket) :
    Inv ((s.close .listening s.sock).setPc .done) := by
  have hlife : s.kernel.life .listening = .opened s.sock := h.socket_of hpc
  have hnew : ((s.close .listening s.sock).setPc .done).kernel.life =
      Function.update s.kernel.life .listening (.closed s.sock) :=
    life_call_close rfl (h.kernel.file_of_opened hlife)
  refine ⟨h.kernel.call .., h.sound.call h.kernel _ hlife, ?_, ?_, trivial, fun _ => rfl⟩
  · intro i
    have hstage : ((s.close .listening s.sock).setPc .done).stage i = s.stage i := by
      rw [Server.stage, Server.stage, hpc]
      rfl
    rw [hstage, hnew, Function.update_of_ne (by simp)]
    exact h.slave i
  · right
    rw [hnew, Function.update_self]
    rfl

/-- What the results say does not matter. -/
theorem Inv.book (h : Inv s) (result status killed : Bool) (pagesCopied : Nat) (faults : List Fault) :
    Inv { s with
      result := result, status := status, killed := killed, pagesCopied := pagesCopied,
      faults := faults } :=
  ⟨h.kernel, h.sound, h.slave, h.socket, h.index, h.discarded⟩

/-- **A step of the listener.** -/
theorem Inv.listenerStep (h : Inv s) {a : Answer} {s' : Server} (hs : s.listenerStep a = some s') :
    Inv s' := by
  unfold Server.listenerStep at hs
  split at hs
  · next fd hpc =>
    split at hs
    · next hfree =>
      obtain rfl := Option.some.inj hs
      exact h.createSocket hpc hfree
    · cases hs
  · next hpc =>
    obtain rfl := Option.some.inj hs
    exact (h.noSocket hpc).book ..
  · next hpc =>
    have huse := h.use_listener (h.socket_of hpc) .listen nofun
    obtain rfl := Option.some.inj hs
    exact huse.toLoop (Or.inr hpc) rfl
  · next hpc =>
    have huse := h.use_listener (h.socket_of hpc) .listen nofun
    obtain rfl := Option.some.inj hs
    exact (huse.noListen hpc).book ..
  · next ready hpc =>
    obtain rfl := Option.some.inj hs
    have hloop : s.pc.atLoop = true := by rw [hpc]; rfl
    cases ready with
    | true => exact h.toLoop (Or.inl hloop) rfl
    | false => exact h.reap hloop
  · next ready hpc =>
    have huse := h.use_listener (h.socket_of hpc) .select nofun
    have hloop : s.pc.atLoop = true := by rw [hpc]; rfl
    obtain rfl := Option.some.inj hs
    cases ready with
    | true => exact huse.toLoop (Or.inl hloop) rfl
    | false => exact huse.toLoop (Or.inl hloop) rfl
  · next hpc =>
    obtain rfl := Option.some.inj hs
    exact h.use_listener (h.socket_of hpc) .select nofun
  · next hpc =>
    have huse := h.use_listener (h.socket_of hpc) .select nofun
    have hloop : s.pc.atLoop = true := by rw [hpc]; rfl
    obtain rfl := Option.some.inj hs
    exact huse.abandon hloop .select
  · next fd hpc =>
    split at hs
    · next hfree =>
      have huse := h.use_listener (h.socket_of hpc) .accept nofun
      obtain rfl := Option.some.inj hs
      exact huse.accept hpc hfree
    · cases hs
  · next hpc =>
    have huse := h.use_listener (h.socket_of hpc) .accept nofun
    have hloop : s.pc.atLoop = true := by rw [hpc]; rfl
    obtain rfl := Option.some.inj hs
    exact (huse.abandon hloop .accept).book ..
  · next newsock created hpc =>
    obtain rfl := Option.some.inj hs
    exact h.spawn hpc created
  · next place _ hpc =>
    obtain ⟨⟨s₁, next⟩, hsection, rfl⟩ := Option.map_eq_some_iff.mp hs
    cases next with
    | some place' => exact h.listener_section (inside_unspawned ..) hpc hsection
    | none => exact h.unspawned_end hpc hsection
  · next place _ hpc =>
    obtain ⟨⟨s₁, next⟩, hsection, rfl⟩ := Option.map_eq_some_iff.mp hs
    cases next with
    | some place' => exact h.listener_section (inside_discard ..) hpc hsection
    | none => exact h.discard_end hpc hsection
  · next i place _ hpc =>
    obtain ⟨⟨s₁, next⟩, hsection, rfl⟩ := Option.map_eq_some_iff.mp hs
    cases next with
    | some place' => exact h.listener_section (inside_shutdown (h.index_of hpc) _) hpc hsection
    | none => exact h.shutdown_end hpc hsection
  · next i _ hpc =>
    split at hs
    · next hexited =>
      obtain rfl := Option.some.inj hs
      exact h.join hpc hexited
    · cases hs
  · next i place _ hpc =>
    obtain ⟨⟨s₁, next⟩, hsection, rfl⟩ := Option.map_eq_some_iff.mp hs
    cases next with
    | some place' => exact h.listener_section (inside_close (h.index_of hpc) _) hpc hsection
    | none => exact h.close_end hpc hsection
  · next i _ hpc =>
    obtain rfl := Option.some.inj hs
    exact (h.collect hpc).book ..
  · next i place _ hpc =>
    obtain ⟨⟨s₁, next⟩, hsection, rfl⟩ := Option.map_eq_some_iff.mp hs
    cases next with
    | some place' => exact h.listener_section (inside_delete (h.index_of hpc) _) hpc hsection
    | none => exact h.delete_end hpc hsection
  · next hpc =>
    obtain rfl := Option.some.inj hs
    exact (h.closeSocket hpc).book ..
  · cases hs

/-- Another part of the program opens a file. -/
theorem Inv.openOther (h : Inv s) {fd n : Nat} (hfree : s.kernel.file fd = none)
    (hnew : s.kernel.life (.other n) = .unborn) :
    Inv { s with kernel := s.kernel.openAt fd (.other n) } := by
  refine ⟨h.kernel.openAt hfree hnew, h.sound, ?_, ?_, h.index, h.discarded⟩
  · intro i
    have hlife : (s.kernel.openAt fd (.other n)).life (.connection i) = s.kernel.life (.connection i) :=
      life_openAt_of_ne (by simp)
    change SlaveOk (s.stage i) (s.child i) ((s.kernel.openAt fd (.other n)).life (.connection i)) (s.shut i)
    rw [hlife]
    exact h.slave i
  · have hlife : (s.kernel.openAt fd (.other n)).life .listening = s.kernel.life .listening :=
      life_openAt_of_ne (by simp)
    change s.pc.Socket s.sock ((s.kernel.openAt fd (.other n)).life .listening)
    rw [hlife]
    exact h.socket

/-- Another part of the program closes a file of its own. -/
theorem Inv.closeOther (h : Inv s) {fd n : Nat} (hfile : s.kernel.file fd = some (.other n)) :
    Inv (s.close (.other n) fd) := by
  have hopen : s.kernel.life (.other n) = .opened fd := (h.kernel.file_iff ..).mp hfile
  have hlife {f : File} (hf : f ≠ .other n) :
      (s.kernel.call .close (.other n) fd).life f = s.kernel.life f := by
    rw [life_call_close rfl hfile, Function.update_of_ne hf]
  refine ⟨h.kernel.call .., h.sound.call h.kernel _ hopen, ?_, ?_, h.index, h.discarded⟩
  · intro i
    change SlaveOk (s.stage i) (s.child i) ((s.kernel.call .close (.other n) fd).life (.connection i))
      (s.shut i)
    rw [hlife (by simp)]
    exact h.slave i
  · change s.pc.Socket s.sock ((s.kernel.call .close (.other n) fd).life .listening)
    rw [hlife (by simp)]
    exact h.socket

end Listener

/-! ## Runs -/

section Runs

variable {pageLength : Nat} {ignored : Bool} {s : Server}

/-- **A step of any thread.** -/
theorem Inv.next (h : Inv s) {l : Label} {s' : Server} (hs : s.next pageLength ignored l = some s') :
    Inv s' := by
  cases l with
  | listener a =>
      simp only [Server.next] at hs
      split at hs
      · cases hs
      · exact h.listenerStep hs
  | slave i a =>
      simp only [Server.next] at hs
      split at hs
      · cases hs
      · exact h.slaveStep hs
  | openOther fd n =>
      simp only [Server.next] at hs
      split at hs
      · next hnew =>
        obtain rfl := Option.some.inj hs
        exact h.openOther hnew.1 hnew.2
      · cases hs
  | closeOther fd n =>
      simp only [Server.next] at hs
      split at hs
      · next hfile =>
        obtain rfl := Option.some.inj hs
        exact h.closeOther hfile
      · cases hs

theorem inv_start {kernel : Kernel Way File} (h : Fresh kernel) : Inv (Server.start kernel) := by
  refine ⟨h.consistent, ?_, ?_, h.listening, rfl, fun hdone => by cases hdone⟩
  · intro c hc
    rw [show (Server.start kernel).kernel.calls = [] from h.calls] at hc
    cases hc
  · intro i
    have hstage : (Server.start kernel).stage i = .absent := by
      simp [Server.stage, ListenPc.stage, Server.start]
    rw [hstage]
    exact ⟨fun _ => h.connection i, by simp, fun _ => rfl, fun hfile => by cases hfile⟩

/-- **Every state of a run.** -/
theorem Server.Reachable.inv (h : Server.Reachable pageLength ignored s) : Inv s := by
  obtain ⟨kernel, hfresh, hrun⟩ := h
  induction hrun with
  | refl => exact inv_start hfresh
  | tail _ hstep ih =>
      obtain ⟨l, hl⟩ := hstep
      exact ih.next hl

theorem Stage.Allows.ended {stage : Stage} {c : Child} {shut : Bool} (h : stage.Allows c shut)
    (hdeleted : c.deleted = true) : c.pc = .exited ∨ c.pc = .unspawned := by
  cases stage with
  | absent | accepted newsock => exact h.elim
  | running => exact absurd (h.2.symm.trans hdeleted) Bool.false_ne_true
  | shutting place | shutDown => exact absurd (h.1.2.symm.trans hdeleted) Bool.false_ne_true
  | closing place | reaped | deleting place | deleted => exact Or.inl h.1
  | unspawned place | discarding place | discarded => exact Or.inr h.1

/-- **The sockets of the slaves.** In every state of every run, each call on a descriptor of the listener or
of a slave has hit the file that it was meant for, also where the number has been in use again; each file
has been closed at most once; the descriptor with which a slave works is that of its connection; and a
slave that has been deleted has run to its end, or was never spawned. -/
theorem slave_sockets (h : Server.Reachable pageLength ignored s) :
    (∀ c ∈ s.kernel.calls, c.hit = some c.meant) ∧ (∀ f, s.kernel.closesMeant f ≤ 1) ∧
      (∀ i sock, (s.child i).pc.copy = some sock → s.kernel.file sock = some (.connection i)) ∧
      ∀ i, (s.child i).deleted = true → (s.child i).pc = .exited ∨ (s.child i).pc = .unspawned := by
  have hinv := h.inv
  refine ⟨hinv.sound, ?_, ?_, ?_⟩
  · intro f
    rw [hinv.kernel.closes_meant hinv.sound]
    split <;> omega
  · intro i sock hcopy
    obtain ⟨hkept, -⟩ := hinv.kept (SlavePc.place_of_copy hcopy).2.1
    exact hinv.kernel.file_of_opened (hkept.opened hcopy)
  · intro i hdeleted
    cases hcreated : (s.stage i).created with
    | false => exact Or.inr ((hinv.slave i).unborn hcreated)
    | true => exact ((hinv.slave i).kept hcreated).allows.ended hdeleted

/-- The listener leaves its loop while the slave closes its connection, and another file comes under the
descriptor before the slave has set `sock_` to 0. -/
def reusedLabels : List Label :=
  [.listener (.newFd 3), .listener (.go true), .listener (.go true), .listener (.go true),
    .listener (.newFd 4), .listener (.go true), .slave 0 (.go true), .slave 0 (.go true),
    .slave 0 .failed, .slave 0 (.go true), .listener (.go false), .slave 0 (.go true),
    .slave 0 (.go true), .openOther 4 0]

theorem slave_sockets_reused : ∃ s, (Server.start noFiles).run 1 false reusedLabels = some s ∧
    s.kernel.file 4 = some (.other 0) ∧ (s.child 0).sock = 4 ∧
    ∀ c ∈ s.kernel.calls, c.hit = some c.meant := by
  have hrun : (Server.start noFiles).run 1 false reusedLabels = some _ := rfl
  exact ⟨_, hrun, rfl, rfl, (slave_sockets ((Server.Reachable.start fresh_noFiles).run hrun)).1⟩

end Runs

end StressAppTest.Network.Listener
