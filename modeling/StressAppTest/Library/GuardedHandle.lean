import StressAppTest.Library.Descriptors

/-!
# A handle that is closed and invalidated under a lock

Several parties share a variable that holds a descriptor, where 0 stands for none. A party uses or
closes the descriptor in a critical section: it takes the lock, tests the variable, makes its call,
sets the variable to 0 if the call was a closing one, and gives the lock back. Between a closing call
and the store of 0 the variable holds a number that may already belong to another file.

`Guarded` relates the variable, the lock and the places of the parties to the life of the file that was
opened under the descriptor. Each step of a section keeps it, and a party that is about to make its call
has the open file (`Guarded.opened_of_call`).
-/

namespace GuardedHandle

open Descriptors (Life)

/-- Where a party is in its critical section. -/
inductive Place where
  | lock
  /-- Before the test of the variable. -/
  | test
  | call
  /-- Before the variable is set to 0. -/
  | clear
  | unlock
  deriving DecidableEq, Repr

/-- `place` are the sections of the parties; a section is a closing one or not. -/
structure Guarded {κ : Type*} (place : κ → Option (Bool × Place)) (handle : Nat) (lock : Option κ)
    (life : Life) : Prop where
  lock_iff : ∀ p, lock = some p ↔ ∃ closing at_, place p = some (closing, at_) ∧ at_ ≠ .lock
  call : ∀ p closing, place p = some (closing, .call) → 0 < handle
  clear : ∀ p closing, place p = some (closing, .clear) →
    closing = true ∧ 0 < handle ∧ life = .closed handle
  unlock : ∀ p, place p = some (true, .unlock) → handle = 0
  quiet : (∀ p closing, place p ≠ some (closing, .clear)) →
    life = .opened handle ∨ handle = 0 ∧ ∃ fd, 0 < fd ∧ life = .closed fd

variable {κ : Type*} {place : κ → Option (Bool × Place)} {handle : Nat} {lock : Option κ} {life : Life}

/-- A new file, and nobody in a section. -/
theorem guarded_new (fd : Nat) : Guarded (fun _ : κ => none) fd none (.opened fd) where
  lock_iff p := by simp
  call p closing h := by cases h
  clear p closing h := by cases h
  unlock p h := by cases h
  quiet _ := Or.inl rfl

section Guarded

variable (h : Guarded place handle lock life)

include h

/-- The lock keeps the other parties out. -/
theorem Guarded.exclusive {p q : κ} {closing closing' : Bool} {at_ at' : Place}
    (hp : place p = some (closing, at_)) (hat : at_ ≠ .lock) (hq : place q = some (closing', at'))
    (hat' : at' ≠ .lock) : p = q := by
  have hlock := (h.lock_iff p).mpr ⟨closing, at_, hp, hat⟩
  have hlock' := (h.lock_iff q).mpr ⟨closing', at', hq, hat'⟩
  exact Option.some.inj (hlock.symm.trans hlock')

/-- While nobody is about to set the variable to 0, a positive descriptor is that of the file. -/
theorem Guarded.opened_of_quiet (hquiet : ∀ p closing, place p ≠ some (closing, .clear))
    (hpos : 0 < handle) : life = .opened handle := by
  rcases h.quiet hquiet with hopen | ⟨hzero, -⟩
  · exact hopen
  · omega

/-- Nobody else is about to set the variable to 0. -/
theorem Guarded.quiet_of_place {p : κ} {closing : Bool} {at_ : Place}
    (hp : place p = some (closing, at_)) (hlock : at_ ≠ .lock) (hclear : at_ ≠ .clear) (q : κ)
    (closing' : Bool) : place q ≠ some (closing', .clear) := by
  intro hq
  obtain rfl := h.exclusive hp hlock hq nofun
  rw [hp] at hq
  exact hclear (Prod.ext_iff.mp (Option.some.inj hq)).2

/-- **A call is made on the open file.** -/
theorem Guarded.opened_of_call {p : κ} {closing : Bool} (hp : place p = some (closing, .call)) :
    life = .opened handle :=
  h.opened_of_quiet (h.quiet_of_place hp nofun nofun) (h.call p closing hp)

variable [DecidableEq κ]

/-- A party goes from one place behind the lock to another one, neither of them before the store of 0. -/
theorem Guarded.move {p : κ} {closing : Bool} {at_ at' : Place} (hp : place p = some (closing, at_))
    (hlock : at_ ≠ .lock) (hclear : at_ ≠ .clear) (hlock' : at' ≠ .lock) (hclear' : at' ≠ .clear)
    (hcall : at' = .call → 0 < handle) (hunlock : at' = .unlock → closing = true → handle = 0) :
    Guarded (Function.update place p (some (closing, at'))) handle lock life where
  lock_iff q := by
    by_cases hq : q = p
    · subst hq
      rw [Function.update_self, h.lock_iff]
      exact ⟨fun _ => ⟨closing, at', rfl, hlock'⟩, fun _ => ⟨closing, at_, hp, hlock⟩⟩
    · rw [Function.update_of_ne hq]
      exact h.lock_iff q
  call q closing' hat := by
    by_cases hq : q = p
    · subst hq
      rw [Function.update_self] at hat
      exact hcall (Prod.ext_iff.mp (Option.some.inj hat)).2
    · rw [Function.update_of_ne hq] at hat
      exact h.call q closing' hat
  clear q closing' hat := by
    by_cases hq : q = p
    · subst hq
      rw [Function.update_self] at hat
      exact absurd (Prod.ext_iff.mp (Option.some.inj hat)).2 hclear'
    · rw [Function.update_of_ne hq] at hat
      exact h.clear q closing' hat
  unlock q hat := by
    by_cases hq : q = p
    · subst hq
      rw [Function.update_self] at hat
      obtain ⟨hclosing, hat'⟩ := Prod.ext_iff.mp (Option.some.inj hat)
      exact hunlock hat' hclosing
    · rw [Function.update_of_ne hq] at hat
      exact h.unlock q hat
  quiet _ := h.quiet (h.quiet_of_place hp hlock hclear)

/-! ## The steps of a section -/

/-- A party outside of a section comes to one. -/
theorem Guarded.enter {p : κ} (closing : Bool) (hp : place p = none) :
    Guarded (Function.update place p (some (closing, .lock))) handle lock life := by
  have hother {q : κ} {closing' : Bool} {at_ : Place} (hlock : at_ ≠ .lock) :
      Function.update place p (some (closing, Place.lock)) q = some (closing', at_) ↔
        place q = some (closing', at_) := by
    by_cases hq : q = p
    · subst hq
      rw [Function.update_self, hp]
      constructor
      · intro hat
        exact absurd (Prod.ext_iff.mp (Option.some.inj hat)).2.symm hlock
      · exact nofun
    · rw [Function.update_of_ne hq]
  refine ⟨?_, ?_, ?_, ?_, ?_⟩
  · intro q
    rw [h.lock_iff]
    constructor
    · rintro ⟨closing', at_, hat, hlock⟩
      exact ⟨closing', at_, (hother hlock).mpr hat, hlock⟩
    · rintro ⟨closing', at_, hat, hlock⟩
      exact ⟨closing', at_, (hother hlock).mp hat, hlock⟩
  · intro q closing' hat
    exact h.call q closing' ((hother (by decide)).mp hat)
  · intro q closing' hat
    exact h.clear q closing' ((hother (by decide)).mp hat)
  · intro q hat
    exact h.unlock q ((hother (by decide)).mp hat)
  · intro hquiet
    apply h.quiet
    intro q closing' hat
    exact hquiet q closing' ((hother (by decide)).mpr hat)

theorem Guarded.lock_free {p : κ} {closing : Bool} (hp : place p = some (closing, .lock))
    (hfree : lock = none) :
    Guarded (Function.update place p (some (closing, .test))) handle (some p) life := by
  have houtside (q : κ) {closing' : Bool} {at_ : Place} (hq : place q = some (closing', at_)) :
      at_ = .lock := by
    by_contra hat
    have hlock := (h.lock_iff q).mpr ⟨closing', at_, hq, hat⟩
    rw [hfree] at hlock
    exact absurd hlock nofun
  have htest {q : κ} {closing' : Bool} {at_ : Place} (hlock : at_ ≠ .lock)
      (hat : Function.update place p (some (closing, Place.test)) q = some (closing', at_)) :
      q = p ∧ at_ = .test := by
    by_cases hq : q = p
    · subst hq
      rw [Function.update_self] at hat
      exact ⟨rfl, (Prod.ext_iff.mp (Option.some.inj hat)).2.symm⟩
    · rw [Function.update_of_ne hq] at hat
      exact absurd (houtside q hat) hlock
  refine ⟨?_, ?_, ?_, ?_, ?_⟩
  · intro q
    constructor
    · intro hq
      obtain rfl := Option.some.inj hq
      exact ⟨closing, .test, Function.update_self .., nofun⟩
    · rintro ⟨closing', at_, hat, hlock⟩
      rw [(htest hlock hat).1]
  · intro q closing' hat
    exact absurd (htest (by decide) hat).2 nofun
  · intro q closing' hat
    exact absurd (htest (by decide) hat).2 nofun
  · intro q hat
    exact absurd (htest (by decide) hat).2 nofun
  · intro _
    apply h.quiet
    intro q closing' hat
    exact absurd (houtside q hat) nofun

theorem Guarded.test {p : κ} {closing : Bool} (hp : place p = some (closing, .test)) :
    Guarded (Function.update place p (some (closing, if 0 < handle then .call else .unlock))) handle lock
      life := by
  by_cases hpos : 0 < handle
  · rw [if_pos hpos]
    exact h.move hp nofun nofun nofun nofun (fun _ => hpos) nofun
  · rw [if_neg hpos]
    exact h.move hp nofun nofun nofun nofun nofun (fun _ _ => by omega)

/-- The call of a section that does not close. -/
theorem Guarded.use {p : κ} (hp : place p = some (false, .call)) :
    Guarded (Function.update place p (some (false, .unlock))) handle lock life :=
  h.move hp nofun nofun nofun nofun nofun nofun

/-- The closing call. -/
theorem Guarded.close {p : κ} (hp : place p = some (true, .call)) :
    Guarded (Function.update place p (some (true, .clear))) handle lock (.closed handle) := by
  have hpos := h.call p true hp
  have hother {q : κ} (hq : q ≠ p) {closing : Bool} {at_ : Place} (hat : place q = some (closing, at_)) :
      at_ = .lock := by
    by_contra hlock
    exact hq (h.exclusive hat hlock hp nofun)
  refine ⟨?_, ?_, ?_, ?_, ?_⟩
  · intro q
    rw [h.lock_iff]
    by_cases hq : q = p
    · subst hq
      rw [Function.update_self]
      exact ⟨fun _ => ⟨true, .clear, rfl, nofun⟩, fun _ => ⟨true, .call, hp, nofun⟩⟩
    · rw [Function.update_of_ne hq]
  · intro q closing hat
    by_cases hq : q = p
    · subst hq
      rw [Function.update_self] at hat
      exact absurd (Prod.ext_iff.mp (Option.some.inj hat)).2 nofun
    · rw [Function.update_of_ne hq] at hat
      exact absurd (hother hq hat) nofun
  · intro q closing hat
    by_cases hq : q = p
    · subst hq
      rw [Function.update_self] at hat
      exact ⟨(Prod.ext_iff.mp (Option.some.inj hat)).1.symm, hpos, rfl⟩
    · rw [Function.update_of_ne hq] at hat
      exact absurd (hother hq hat) nofun
  · intro q hat
    by_cases hq : q = p
    · subst hq
      rw [Function.update_self] at hat
      exact absurd (Prod.ext_iff.mp (Option.some.inj hat)).2 nofun
    · rw [Function.update_of_ne hq] at hat
      exact absurd (hother hq hat) nofun
  · intro hquiet
    exact absurd (Function.update_self ..) (hquiet p true)

/-- The variable is set to 0. -/
theorem Guarded.clear_handle {p : κ} {closing : Bool} (hp : place p = some (closing, .clear)) :
    Guarded (Function.update place p (some (closing, .unlock))) 0 lock life := by
  obtain ⟨-, hpos, hlife⟩ := h.clear p closing hp
  have hother {q : κ} (hq : q ≠ p) {closing' : Bool} {at_ : Place}
      (hat : Function.update place p (some (closing, Place.unlock)) q = some (closing', at_)) :
      at_ = .lock := by
    rw [Function.update_of_ne hq] at hat
    by_contra hlock
    exact hq (h.exclusive hat hlock hp nofun)
  have hself {closing' : Bool} {at_ : Place}
      (hat : Function.update place p (some (closing, Place.unlock)) p = some (closing', at_)) :
      at_ = .unlock := by
    rw [Function.update_self] at hat
    exact (Prod.ext_iff.mp (Option.some.inj hat)).2.symm
  refine ⟨?_, ?_, ?_, ?_, ?_⟩
  · intro q
    rw [h.lock_iff]
    by_cases hq : q = p
    · subst hq
      rw [Function.update_self]
      exact ⟨fun _ => ⟨closing, .unlock, rfl, nofun⟩, fun _ => ⟨closing, .clear, hp, nofun⟩⟩
    · rw [Function.update_of_ne hq]
  · intro q closing' hat
    by_cases hq : q = p
    · subst hq
      exact absurd (hself hat) nofun
    · exact absurd (hother hq hat) nofun
  · intro q closing' hat
    by_cases hq : q = p
    · subst hq
      exact absurd (hself hat) nofun
    · exact absurd (hother hq hat) nofun
  · intro _ _
    rfl
  · intro _
    exact Or.inr ⟨rfl, handle, hpos, hlife⟩

theorem Guarded.unlock_free {p : κ} {closing : Bool} (hp : place p = some (closing, .unlock)) :
    Guarded (Function.update place p none) handle none life := by
  have hother {q : κ} {closing' : Bool} {at_ : Place}
      (hat : Function.update place p none q = some (closing', at_)) : at_ = .lock := by
    by_cases hq : q = p
    · subst hq
      rw [Function.update_self] at hat
      exact absurd hat nofun
    · rw [Function.update_of_ne hq] at hat
      by_contra hlock
      exact hq (h.exclusive hat hlock hp nofun)
  refine ⟨?_, ?_, ?_, ?_, ?_⟩
  · intro q
    constructor
    · exact nofun
    · rintro ⟨closing', at_, hat, hlock⟩
      exact absurd (hother hat) hlock
  · intro q closing' hat
    exact absurd (hother hat) nofun
  · intro q closing' hat
    exact absurd (hother hat) nofun
  · intro q hat
    exact absurd (hother hat) nofun
  · intro _
    exact h.quiet (h.quiet_of_place hp nofun nofun)

end Guarded

end GuardedHandle
