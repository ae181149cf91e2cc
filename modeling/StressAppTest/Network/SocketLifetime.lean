import StressAppTest.Network.Listener

/-!
# The sockets of the listener

How far the listener is with a slave follows from its own place (`Server.stage`). `Kept` is what holds of
a slave at each stage: the socket, its lock and the sections of the two threads are a guarded handle, and
what the listener has been told by `pthread_join` still holds.

* `section_spec`: a step of `ShutdownSocket` or `CloseOwnedSocket`, of either thread.
* `Inv.slaveStep`: a step of a slave keeps the invariant.
-/

namespace StressAppTest.Network.Listener

open Descriptors GuardedHandle

/-- How far the listener is with a slave. -/
inductive Stage where
  | absent
  | accepted (newsock : Nat)
  | unspawned (place : Section)
  | discarding (place : Section)
  | discarded
  | running
  | shutting (place : Section)
  | shutDown
  | closing (place : Section)
  | reaped
  | deleting (place : Section)
  | deleted

/-- The slave has been constructed. -/
def Stage.created : Stage → Bool
  | .absent | .accepted _ => false
  | _ => true

/-- The section of the listener; it closes the socket or not. -/
def Stage.place : Stage → Option (Bool × Section)
  | .unspawned place | .discarding place | .closing place | .deleting place => some (true, place)
  | .shutting place => some (false, place)
  | _ => none

/-- The section of the slave. -/
def SlavePc.place : SlavePc → Option (Bool × Section)
  | .closing place => some (true, place)
  | _ => none

/-- The sections of both threads. -/
def places (stage : Stage) (pc : SlavePc) : Party → Option (Bool × Section)
  | .listener => stage.place
  | .slave => pc.place

theorem places_listener (stage : Stage) {stage' : Stage} {pc : SlavePc} :
    places stage' pc = Function.update (places stage pc) .listener stage'.place := by
  funext p
  cases p <;> rfl

theorem places_slave {stage : Stage} (pc : SlavePc) {pc' : SlavePc} :
    places stage pc' = Function.update (places stage pc) .slave pc'.place := by
  funext p
  cases p <;> rfl

/-- The local copy of the descriptor in `NetworkSlaveThread::Work`. -/
def SlavePc.copy : SlavePc → Option Nat
  | .memalign sock | .receiving sock _ _ | .sending sock _ _ => some sock
  | _ => none

/-- The slave has closed its socket. -/
def SlavePc.ended : SlavePc → Bool
  | .removeSelf | .exited => true
  | _ => false

/-- What the listener knows of a slave. -/
def Stage.Allows : Stage → Child → Bool → Prop
  | .absent, _, _ | .accepted _, _, _ => False
  | .running, c, _ => c.pc ≠ .unspawned ∧ c.deleted = false
  | .shutting place, c, shut =>
      (c.pc ≠ .unspawned ∧ c.deleted = false) ∧ (place = .unlock → c.sock = 0 ∨ shut = true)
  | .shutDown, c, shut => (c.pc ≠ .unspawned ∧ c.deleted = false) ∧ (c.sock = 0 ∨ shut = true)
  | .closing _, c, _ | .reaped, c, _ | .deleting _, c, _ => c.pc = .exited ∧ c.deleted = false
  | .deleted, c, _ => c.pc = .exited ∧ c.deleted = true
  | .unspawned _, c, _ => c.pc = .unspawned ∧ c.deleted = false
  | .discarding _, c, _ => c.pc = .unspawned ∧ c.deleted = false ∧ c.sock = 0
  | .discarded, c, _ => c.pc = .unspawned ∧ c.deleted = true ∧ c.sock = 0

/-- A slave that has been constructed. -/
structure Kept (stage : Stage) (c : Child) (life : Life) (shut : Bool) : Prop where
  guarded : Guarded (places stage c.pc) c.sock c.lock life
  copy : ∀ sock, c.pc.copy = some sock → sock = c.sock ∧ 0 < sock
  ended : c.pc.ended = true → c.sock = 0
  allows : stage.Allows c shut

/-- A slave, constructed or not. -/
structure SlaveOk (stage : Stage) (c : Child) (life : Life) (shut : Bool) : Prop where
  absent : stage = .absent → life = .unborn
  accepted : ∀ newsock, stage = .accepted newsock → life = .opened newsock
  unborn : stage.created = false → c.pc = .unspawned
  kept : stage.created = true → Kept stage c life shut

theorem Kept.ok {stage : Stage} {c : Child} {life : Life} {shut : Bool} (h : Kept stage c life shut)
    (hcreated : stage.created = true) : SlaveOk stage c life shut where
  absent hs := by rw [hs] at hcreated; cases hcreated
  accepted _ hs := by rw [hs] at hcreated; cases hcreated
  unborn hs := by rw [hs] at hcreated; cases hcreated
  kept _ := h

/-- How far the listener is with slave `i`. -/
def ListenPc.stage (pc : ListenPc) (workers : Nat) (discarded : Bool) (i : Nat) : Stage :=
  if i < workers then
    match pc with
    | .shutdown j place => if i < j then .shutDown else if i = j then .shutting place else .running
    | .join j => if i < j then .reaped else .shutDown
    | .close j place => if i < j then .reaped else if i = j then .closing place else .shutDown
    | .collect j => if i ≤ j then .reaped else .shutDown
    | .delete j place => if i < j then .deleted else if i = j then .deleting place else .reaped
    | .closeSocket | .done => .deleted
    | _ => .running
  else if i = workers then
    match pc with
    | .spawn newsock => .accepted newsock
    | .unspawned place => .unspawned place
    | .discard place => .discarding place
    | _ => if discarded then .discarded else .absent
  else .absent

def Server.stage (s : Server) (i : Nat) : Stage := s.pc.stage s.workers s.discarded i

/-- The listener has left the loop of `Work`. -/
def ListenPc.ending : ListenPc → Bool
  | .shutdown _ _ | .join _ | .close _ _ | .collect _ | .delete _ _ | .closeSocket | .done => true
  | _ => false

/-- The loops of `ReapSlaves` and the one that deletes the slaves are at a slave. -/
def ListenPc.Index (workers : Nat) : ListenPc → Prop
  | .createSocket | .listen => workers = 0
  | .shutdown i _ | .join i | .close i _ | .collect i | .delete i _ => i < workers
  | _ => True

/-- The socket of the listener. -/
def ListenPc.Socket (sock : Nat) (life : Life) : ListenPc → Prop
  | .createSocket => life = .unborn
  | .done => life = .unborn ∨ life = .closed sock
  | _ => life = .opened sock

/-- What holds between any two steps. -/
structure Inv (s : Server) : Prop where
  kernel : Consistent s.kernel
  sound : Sound s.kernel
  slave : ∀ i, SlaveOk (s.stage i) (s.child i) (s.kernel.life (.connection i)) (s.shut i)
  socket : s.pc.Socket s.sock (s.kernel.life .listening)
  index : s.pc.Index s.workers
  discarded : s.discarded = true → s.pc.ending = true

/-! ## Critical sections -/

/-- What a step of a section of slave `i` leaves as it is, and what it does. -/
structure Sectioned (s s' : Server) (i : Nat) (closing : Bool) (place : Section) : Prop where
  rest : s' = { s with child := s'.child, kernel := s'.kernel, shut := s'.shut }
  kernel : Consistent s'.kernel
  sound : Sound s'.kernel
  child : ∀ j, j ≠ i → s'.child j = s.child j
  same : s'.child i = { s.child i with sock := (s'.child i).sock, lock := (s'.child i).lock }
  sock : (s'.child i).sock = (s.child i).sock ∨ place = .clear ∧ (s'.child i).sock = 0
  life : ∀ f, f ≠ .connection i → s'.kernel.life f = s.kernel.life f
  shut : ∀ j, j ≠ i → s'.shut j = s.shut j
  kept : s.shut i = true → s'.shut i = true
  called : place = .call → closing = false → s'.shut i = true

theorem Sectioned.fields {s s' : Server} {i : Nat} {closing : Bool} {place : Section}
    (h : Sectioned s s' i closing place) :
    s'.pc = s.pc ∧ s'.workers = s.workers ∧ s'.discarded = s.discarded ∧ s'.sock = s.sock := by
  rw [h.rest]
  exact ⟨rfl, rfl, rfl, rfl⟩

theorem Sectioned.deleted {s s' : Server} {i : Nat} {closing : Bool} {place : Section}
    (h : Sectioned s s' i closing place) : (s'.child i).deleted = (s.child i).deleted := by
  rw [h.same]

theorem Sectioned.slavePc {s s' : Server} {i : Nat} {closing : Bool} {place : Section}
    (h : Sectioned s s' i closing place) : (s'.child i).pc = (s.child i).pc := by
  rw [h.same]

theorem Sectioned.sock_or {s s' : Server} {i : Nat} {closing : Bool} {place : Section}
    (h : Sectioned s s' i closing place) :
    (s'.child i).sock = (s.child i).sock ∨ (s'.child i).sock = 0 := h.sock.imp_right And.right

theorem sectioned_setChild {s : Server} {i : Nat} {closing : Bool} {place : Section} (sock : Nat)
    (lock : Option Party) (hkernel : Consistent s.kernel) (hsound : Sound s.kernel)
    (hsock : sock = (s.child i).sock ∨ place = .clear ∧ sock = 0) (hplace : place ≠ .call) :
    Sectioned s (s.setChild i { s.child i with sock := sock, lock := lock }) i closing place where
  rest := rfl
  kernel := hkernel
  sound := hsound
  child j hj := Function.update_of_ne hj _ _
  same := by simp only [Server.setChild, Function.update_self]
  sock := by simpa only [Server.setChild, Function.update_self] using hsock
  life _ _ := rfl
  shut _ _ := rfl
  kept := id
  called hcall := absurd hcall hplace

/-- A call on the open socket of a slave. -/
theorem sectioned_call {s : Server} {i : Nat} (closing : Bool) (hkernel : Consistent s.kernel)
    (hsound : Sound s.kernel) (hlife : s.kernel.life (.connection i) = .opened (s.child i).sock) :
    Sectioned s (if closing then s.close (.connection i) (s.child i).sock
      else s.use .shutdown (.connection i) (s.child i).sock) i closing .call := by
  have hfile := hkernel.file_of_opened hlife
  cases closing with
  | true =>
      refine ⟨rfl, hkernel.call .., hsound.call hkernel _ hlife, fun _ _ => rfl, rfl, Or.inl rfl, ?_,
        fun _ _ => rfl, id, nofun⟩
      intro f hf
      change (s.kernel.call .close _ _).life f = _
      rw [life_call_close rfl hfile, Function.update_of_ne hf]
  | false =>
      have hshut : (s.use .shutdown (.connection i) (s.child i).sock).shut =
          Function.update s.shut i true := by
        simp only [Server.use, hfile]
      refine ⟨rfl, hkernel.call .., hsound.call hkernel _ hlife, fun _ _ => rfl, rfl, Or.inl rfl,
        fun _ _ => rfl, ?_, ?_, ?_⟩
      · intro j hj
        exact (congrFun hshut j).trans (Function.update_of_ne hj _ _)
      · intro _
        exact (congrFun hshut i).trans (Function.update_self ..)
      · intro _ _
        exact (congrFun hshut i).trans (Function.update_self ..)

/-- **A step of a section.** -/
theorem section_spec {s s' : Server} {i : Nat} {party : Party} {closing : Bool} {place : Section}
    {next : Option Section} {at_ : Party → Option (Bool × Section)} (hkernel : Consistent s.kernel)
    (hsound : Sound s.kernel)
    (hguarded : Guarded at_ (s.child i).sock (s.child i).lock (s.kernel.life (.connection i)))
    (hparty : at_ party = some (closing, place))
    (h : s.section_ i party closing place = some (s', next)) :
    Sectioned s s' i closing place ∧
      Guarded (Function.update at_ party (next.map fun place => (closing, place))) (s'.child i).sock
        (s'.child i).lock (s'.kernel.life (.connection i)) := by
  have hself (c : Child) : (s.setChild i c).child i = c := Function.update_self ..
  cases place with
  | lock =>
      simp only [Server.section_] at h
      split at h
      · next hfree =>
        obtain ⟨rfl, rfl⟩ := Prod.ext_iff.mp (Option.some.inj h)
        refine ⟨sectioned_setChild _ _ hkernel hsound (Or.inl rfl) nofun, ?_⟩
        simp only [hself]
        exact hguarded.lock_free hparty hfree
      · exact absurd h nofun
  | test =>
      obtain ⟨rfl, rfl⟩ := Prod.ext_iff.mp (Option.some.inj h)
      refine ⟨⟨rfl, hkernel, hsound, fun _ _ => rfl, rfl, Or.inl rfl, fun _ _ => rfl, fun _ _ => rfl, id,
        nofun⟩, ?_⟩
      exact hguarded.test hparty
  | call =>
      have hlife := hguarded.opened_of_call hparty
      have hcall := sectioned_call closing hkernel hsound hlife
      cases closing with
      | true =>
          obtain ⟨rfl, rfl⟩ := Prod.ext_iff.mp (Option.some.inj h)
          refine ⟨hcall, ?_⟩
          have hclosed : (s.kernel.call .close (.connection i) (s.child i).sock).life (.connection i) =
              .closed (s.child i).sock := by
            rw [life_call_close rfl (hkernel.file_of_opened hlife), Function.update_self]
          simp only [Server.close]
          rw [hclosed]
          exact hguarded.close hparty
      | false =>
          obtain ⟨rfl, rfl⟩ := Prod.ext_iff.mp (Option.some.inj h)
          exact ⟨hcall, hguarded.use hparty⟩
  | clear =>
      obtain ⟨rfl, rfl⟩ := Prod.ext_iff.mp (Option.some.inj h)
      refine ⟨sectioned_setChild _ _ hkernel hsound (Or.inr ⟨rfl, rfl⟩) nofun, ?_⟩
      simp only [hself]
      exact hguarded.clear_handle hparty
  | unlock =>
      obtain ⟨rfl, rfl⟩ := Prod.ext_iff.mp (Option.some.inj h)
      refine ⟨sectioned_setChild _ _ hkernel hsound (Or.inl rfl) nofun, ?_⟩
      simp only [hself]
      exact hguarded.unlock_free hparty

/-! ## A slave goes on -/

/-- A slave that runs is at a stage at which it may. -/
theorem Stage.Allows.move {stage : Stage} {c c' : Child} {shut : Bool} (h : stage.Allows c shut)
    (hunspawned : c.pc ≠ .unspawned) (hexited : c.pc ≠ .exited) (hunspawned' : c'.pc ≠ .unspawned)
    (hdeleted : c'.deleted = c.deleted) (hsock : c'.sock = c.sock ∨ c'.sock = 0) :
    stage.Allows c' shut := by
  cases stage with
  | absent | accepted newsock => exact h
  | unspawned place | discarding place | discarded => exact absurd h.1 hunspawned
  | closing place | reaped | deleting place | deleted => exact absurd h.1 hexited
  | running => exact ⟨hunspawned', hdeleted.trans h.2⟩
  | shutting place =>
      refine ⟨⟨hunspawned', hdeleted.trans h.1.2⟩, fun hplace => ?_⟩
      rcases hsock with hsock | hsock
      · rw [hsock]
        exact h.2 hplace
      · exact Or.inl hsock
  | shutDown =>
      refine ⟨⟨hunspawned', hdeleted.trans h.1.2⟩, ?_⟩
      rcases hsock with hsock | hsock
      · rw [hsock]
        exact h.2
      · exact Or.inl hsock

theorem Stage.Allows.shut {stage : Stage} {c : Child} {shut shut' : Bool} (h : stage.Allows c shut)
    (hshut : shut = true → shut' = true) : stage.Allows c shut' := by
  cases stage with
  | shutting place => exact ⟨h.1, fun hplace => (h.2 hplace).imp_right hshut⟩
  | shutDown => exact ⟨h.1, h.2.imp_right hshut⟩
  | _ => exact h

theorem SlavePc.place_of_copy {pc : SlavePc} {sock : Nat} (h : pc.copy = some sock) :
    pc.place = none ∧ pc ≠ .unspawned ∧ pc ≠ .exited ∧ pc.ended = false := by
  cases pc <;> simp [SlavePc.copy, SlavePc.place, SlavePc.ended] at h ⊢

/-- The local copy is the descriptor of the connection, which is open. -/
theorem Kept.opened {stage : Stage} {c : Child} {life : Life} {shut : Bool}
    (h : Kept stage c life shut) {sock : Nat} (hcopy : c.pc.copy = some sock) : life = .opened sock := by
  obtain ⟨hplace, hunspawned, hexited, -⟩ := SlavePc.place_of_copy hcopy
  obtain ⟨hsock, hpos⟩ := h.copy sock hcopy
  subst hsock
  refine h.guarded.opened_of_quiet ?_ hpos
  intro p closing hclear
  cases p with
  | slave =>
      change c.pc.place = _ at hclear
      rw [hplace] at hclear
      cases hclear
  | listener =>
      have hclosing := (h.guarded.clear .listener closing hclear).1
      subst hclosing
      have hallows := h.allows
      change stage.place = _ at hclear
      cases stage with
      | unspawned place | discarding place => exact hunspawned hallows.1
      | closing place | deleting place => exact hexited hallows.1
      | _ => cases hclear

/-- The slave goes to another place without a change of its socket. -/
theorem Kept.move {stage : Stage} {c c' : Child} {life : Life} {shut : Bool}
    (h : Kept stage c life shut) (hunspawned : c.pc ≠ .unspawned) (hexited : c.pc ≠ .exited)
    (hunspawned' : c'.pc ≠ .unspawned) (hsame : c'.sock = c.sock ∧ c'.lock = c.lock ∧
      c'.deleted = c.deleted)
    (hplace : c'.pc.place = c.pc.place ∨ c.pc.place = none ∧ c'.pc.place = some (true, .lock))
    (hcopy : ∀ sock, c'.pc.copy = some sock → c.pc.copy = some sock ∨ sock = c.sock ∧ 0 < sock)
    (hended : c'.pc.ended = true → c.sock = 0) : Kept stage c' life shut := by
  obtain ⟨hsock, hlock, hdeleted⟩ := hsame
  refine ⟨?_, ?_, ?_, h.allows.move hunspawned hexited hunspawned' hdeleted (Or.inl hsock)⟩
  · rw [hsock, hlock]
    rcases hplace with hplace | ⟨hnone, hplace⟩
    · have hplaces : places stage c'.pc = places stage c.pc := by
        funext p
        cases p
        · rfl
        · exact hplace
      rw [hplaces]
      exact h.guarded
    · rw [places_slave c.pc, hplace]
      exact h.guarded.enter true hnone
  · intro sock hc
    rw [hsock]
    rcases hcopy sock hc with hc | hc
    · exact h.copy sock hc
    · exact hc
  · intro ho
    rw [hsock]
    exact hended ho

section Slave

variable {s : Server} {i : Nat}

theorem Inv.kept (h : Inv s) (hpc : (s.child i).pc ≠ .unspawned) :
    Kept (s.stage i) (s.child i) (s.kernel.life (.connection i)) (s.shut i) ∧
      (s.stage i).created = true := by
  cases hcreated : (s.stage i).created with
  | false => exact absurd ((h.slave i).unborn hcreated) hpc
  | true => exact ⟨(h.slave i).kept hcreated, rfl⟩

/-- Only slave `i` and its connection have changed. -/
theorem Inv.slave_moved {s' : Server} (h : Inv s) (i : Nat)
    (hrest : s'.pc = s.pc ∧ s'.workers = s.workers ∧ s'.discarded = s.discarded ∧ s'.sock = s.sock)
    (hkernel : Consistent s'.kernel) (hsound : Sound s'.kernel)
    (hother : ∀ j, j ≠ i → s'.child j = s.child j ∧ s'.shut j = s.shut j)
    (hlife : ∀ f, f ≠ .connection i → s'.kernel.life f = s.kernel.life f)
    (hslave : SlaveOk (s.stage i) (s'.child i) (s'.kernel.life (.connection i)) (s'.shut i)) :
    Inv s' := by
  obtain ⟨hpc, hworkers, hdiscarded, hsock⟩ := hrest
  have hstage (j : Nat) : s'.stage j = s.stage j := by
    rw [Server.stage, Server.stage, hpc, hworkers, hdiscarded]
  refine ⟨hkernel, hsound, ?_, ?_, ?_, ?_⟩
  · intro j
    rw [hstage]
    by_cases hj : j = i
    · rw [hj]
      exact hslave
    · rw [(hother j hj).1, (hother j hj).2, hlife _ (by simpa using hj)]
      exact h.slave j
  · rw [hpc, hsock, hlife .listening (by simp)]
    exact h.socket
  · rw [hpc, hworkers]
    exact h.index
  · rw [hpc, hdiscarded]
    exact h.discarded

theorem Inv.faults (h : Inv s) (faults : List Fault) : Inv { s with faults := faults } :=
  ⟨h.kernel, h.sound, h.slave, h.socket, h.index, h.discarded⟩

theorem Inv.setChild (h : Inv s) {c : Child}
    (hslave : SlaveOk (s.stage i) c (s.kernel.life (.connection i)) (s.shut i)) :
    Inv (s.setChild i c) := by
  refine h.slave_moved i ⟨rfl, rfl, rfl, rfl⟩ h.kernel h.sound ?_ (fun _ _ => rfl) ?_
  · intro j hj
    exact ⟨Function.update_of_ne hj _ _, rfl⟩
  · simp only [Server.setChild, Function.update_self]
    exact hslave

/-- A `recv` or `send` of a slave. -/
theorem Inv.use_slave (h : Inv s) {sock : Nat} (hcopy : (s.child i).pc.copy = some sock) {way : Way}
    (hway : way = .recv ∨ way = .send) : Inv (s.use way (.connection i) sock) := by
  obtain ⟨hkept, hcreated⟩ := h.kept (SlavePc.place_of_copy hcopy).2.1
  have hlife := hkept.opened hcopy
  have hshut : (s.use way (.connection i) sock).shut = s.shut := by
    rcases hway with rfl | rfl <;> rfl
  have hkernel : (s.use way (.connection i) sock).kernel = s.kernel.call (.use way) (.connection i) sock :=
    rfl
  refine h.slave_moved i ⟨rfl, rfl, rfl, rfl⟩ (h.kernel.call ..) (h.sound.call h.kernel _ hlife)
    ?_ (fun _ _ => by rw [hkernel, life_call_use rfl]) ?_
  · intro j _
    exact ⟨rfl, congrFun hshut j⟩
  · rw [hkernel, life_call_use rfl, hshut]
    exact h.slave i

/-- The slave goes on. -/
theorem Inv.slave_pc (h : Inv s) {c : Child} (hunspawned : (s.child i).pc ≠ .unspawned)
    (hexited : (s.child i).pc ≠ .exited) (hunspawned' : c.pc ≠ .unspawned)
    (hsame : c.sock = (s.child i).sock ∧ c.lock = (s.child i).lock ∧
      c.deleted = (s.child i).deleted)
    (hplace : c.pc.place = (s.child i).pc.place ∨
      (s.child i).pc.place = none ∧ c.pc.place = some (true, .lock))
    (hcopy : ∀ sock, c.pc.copy = some sock →
      (s.child i).pc.copy = some sock ∨ sock = (s.child i).sock ∧ 0 < sock)
    (hended : c.pc.ended = true → (s.child i).sock = 0) : Inv (s.setChild i c) := by
  obtain ⟨hkept, hcreated⟩ := h.kept hunspawned
  exact h.setChild
    ((hkept.move hunspawned hexited hunspawned' hsame hplace hcopy hended).ok hcreated)

/-- A slave that works goes on, or comes to the end of its loop. -/
theorem Inv.slave_working (h : Inv s) {c : Child} {sock : Nat}
    (hcopy : (s.child i).pc.copy = some sock) (hpc : c.pc.copy = some sock ∨ c.pc = .closing .lock)
    (hsame : c.sock = (s.child i).sock ∧ c.lock = (s.child i).lock ∧
      c.deleted = (s.child i).deleted) : Inv (s.setChild i c) := by
  obtain ⟨hplace, hunspawned, hexited, -⟩ := SlavePc.place_of_copy hcopy
  rcases hpc with hpc | hpc
  · obtain ⟨hplace', hunspawned', -, hended'⟩ := SlavePc.place_of_copy hpc
    refine h.slave_pc hunspawned hexited hunspawned' hsame (Or.inl (hplace'.trans hplace.symm)) ?_ ?_
    · intro sock' hsock'
      rw [hpc] at hsock'
      rw [← hsock']
      exact Or.inl hcopy
    · intro hended
      exact absurd (hended'.symm.trans hended) Bool.false_ne_true
  · refine h.slave_pc hunspawned hexited ?_ hsame (Or.inr ⟨hplace, by rw [hpc]; rfl⟩) ?_ ?_
    · rw [hpc]
      nofun
    · intro sock' hsock'
      rw [hpc] at hsock'
      cases hsock'
    · intro hended
      rw [hpc] at hended
      cases hended

/-- A section ends with its unlock. -/
theorem section_none {party : Party} {closing : Bool} {place : Section} {s₁ : Server}
    (h : s.section_ i party closing place = some (s₁, none)) : place = .unlock := by
  cases place with
  | unlock => rfl
  | lock =>
      simp only [Server.section_] at h
      split at h <;> cases h
  | call =>
      simp only [Server.section_] at h
      split at h <;> cases h
  | _ => cases h

/-- A step of `CloseOwnedSocket` in the slave. -/
theorem Inv.slave_section (h : Inv s) {place : Section} (hpc : (s.child i).pc = .closing place)
    {s₁ : Server} {next : Option Section} (hs : s.section_ i .slave true place = some (s₁, next)) :
    Inv (s₁.setSlave i (SlavePc.closeOwned next)) := by
  have hunspawned : (s.child i).pc ≠ .unspawned := by rw [hpc]; nofun
  have hexited : (s.child i).pc ≠ .exited := by rw [hpc]; nofun
  obtain ⟨hkept, hcreated⟩ := h.kept hunspawned
  have hparty : places (s.stage i) (s.child i).pc .slave = some (true, place) := by
    rw [hpc]
    rfl
  obtain ⟨hsec, hguarded⟩ := section_spec h.kernel h.sound hkept.guarded hparty hs
  have hchild : (s₁.setSlave i (SlavePc.closeOwned next)).child i =
      { s₁.child i with pc := SlavePc.closeOwned next } := Function.update_self ..
  have hallows : (s.stage i).Allows { s₁.child i with pc := SlavePc.closeOwned next } (s.shut i) := by
    refine hkept.allows.move hunspawned hexited ?_ ?_ hsec.sock_or
    · cases next <;> nofun
    · exact hsec.deleted
  refine h.slave_moved i hsec.fields hsec.kernel hsec.sound ?_ hsec.life ?_
  · intro j hj
    exact ⟨(Function.update_of_ne hj _ _).trans (hsec.child j hj), hsec.shut j hj⟩
  · rw [hchild]
    refine Kept.ok ⟨?_, ?_, ?_, ?_⟩ hcreated
    · rw [places_slave (s.child i).pc]
      have hplace : (SlavePc.closeOwned next).place = next.map fun place => (true, place) := by
        cases next <;> rfl
      rw [hplace]
      exact hguarded
    · intro sock hcopy
      cases next <;> cases hcopy
    · intro hended
      cases next with
      | some place' => cases hended
      | none =>
          have hplace := section_none hs
          subst hplace
          have hzero := hkept.guarded.unlock .slave hparty
          rcases hsec.sock_or with hsock | hsock
          · exact hsock.trans hzero
          · exact hsock
    · exact hallows.shut hsec.kept

/-- **A step of a slave.** -/
theorem Inv.slaveStep (h : Inv s) {pageLength : Nat} {ignored : Bool} {a : Answer} {s' : Server}
    (hs : s.slaveStep pageLength ignored i a = some s') : Inv s' := by
  unfold Server.slaveStep at hs
  split at hs
  · next hpc =>
    -- the local copy is taken
    have hunspawned : (s.child i).pc ≠ .unspawned := by rw [hpc]; nofun
    have hexited : (s.child i).pc ≠ .exited := by rw [hpc]; nofun
    split at hs
    · next hzero =>
      obtain rfl := Option.some.inj hs
      refine (h.slave_pc (c := { s.child i with status := false, pc := .removeSelf }) hunspawned hexited
        nofun ⟨rfl, rfl, rfl⟩ (Or.inl (by rw [hpc]; rfl)) nofun fun _ => hzero).faults _
    · next hzero =>
      obtain rfl := Option.some.inj hs
      refine h.slave_pc hunspawned hexited nofun ⟨rfl, rfl, rfl⟩ (Or.inl (by rw [hpc]; rfl)) ?_ nofun
      intro sock hsock
      obtain rfl := Option.some.inj hsock
      exact Or.inr ⟨rfl, Nat.pos_of_ne_zero hzero⟩
  · next sock hpc =>
    have hcopy : (s.child i).pc.copy = some sock := by rw [hpc]; rfl
    obtain rfl := Option.some.inj hs
    exact h.slave_working hcopy (Or.inl rfl) ⟨rfl, rfl, rfl⟩
  · next sock hpc =>
    have hcopy : (s.child i).pc.copy = some sock := by rw [hpc]; rfl
    obtain rfl := Option.some.inj hs
    have hmoved : Inv (s.setChild i { s.child i with status := false, pc := .closing .lock }) :=
      h.slave_working hcopy (Or.inr rfl) ⟨rfl, rfl, rfl⟩
    exact hmoved.faults _
  · next sock n loops hpc =>
    -- `ReceivePage`
    have hcopy : (s.child i).pc.copy = some sock := by rw [hpc]; rfl
    have hrecv := h.use_slave hcopy (Or.inl rfl)
    split at hs
    · obtain rfl := Option.some.inj hs
      exact h.slave_working hcopy (Or.inl rfl) ⟨rfl, rfl, rfl⟩
    · split at hs
      · split at hs
        · obtain rfl := Option.some.inj hs
          exact hrecv.slave_working hcopy (Or.inl rfl) ⟨rfl, rfl, rfl⟩
        · cases hs
      · obtain rfl := Option.some.inj hs
        exact hrecv.slave_working hcopy (Or.inr rfl) ⟨rfl, rfl, rfl⟩
      · cases hs
  · next sock n loops hpc =>
    -- `SendPage`
    have hcopy : (s.child i).pc.copy = some sock := by rw [hpc]; rfl
    have hsend := h.use_slave hcopy (Or.inr rfl)
    split at hs
    · obtain rfl := Option.some.inj hs
      exact h.slave_working hcopy (Or.inl rfl) ⟨rfl, rfl, rfl⟩
    · split at hs
      · split at hs
        · obtain rfl := Option.some.inj hs
          exact hsend.slave_working hcopy (Or.inl rfl) ⟨rfl, rfl, rfl⟩
        · cases hs
      · split at hs
        · cases hs
        · obtain rfl := Option.some.inj hs
          exact hsend.slave_working hcopy (Or.inr rfl) ⟨rfl, rfl, rfl⟩
      · split at hs
        · obtain rfl := Option.some.inj hs
          exact hsend.slave_working hcopy (Or.inr rfl) ⟨rfl, rfl, rfl⟩
        · obtain rfl := Option.some.inj hs
          exact ⟨hsend.kernel, hsend.sound, hsend.slave, hsend.socket, hsend.index, hsend.discarded⟩
      · cases hs
  · next place _ hpc =>
    obtain ⟨⟨s₁, next⟩, hsection, rfl⟩ := Option.map_eq_some_iff.mp hs
    exact h.slave_section hpc hsection
  · next hpc =>
    have hunspawned : (s.child i).pc ≠ .unspawned := by rw [hpc]; nofun
    have hexited : (s.child i).pc ≠ .exited := by rw [hpc]; nofun
    obtain rfl := Option.some.inj hs
    obtain ⟨hkept, -⟩ := h.kept hunspawned
    exact h.slave_pc hunspawned hexited nofun ⟨rfl, rfl, rfl⟩ (Or.inl (by rw [hpc]; rfl)) nofun
      fun _ => hkept.ended (by rw [hpc]; rfl)
  · cases hs

end Slave

end StressAppTest.Network.Listener
