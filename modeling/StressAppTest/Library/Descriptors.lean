import Mathlib.Data.List.Count
import Mathlib.Logic.Function.Basic

/-!
# Descriptors that are used again

A process reaches its files by descriptors, which are numbers. A number is free until a file is
opened under it, and free again after it has been closed, so that a later file may come under the
same number. A `Call` records what the caller has taken the descriptor for and what it referred to at
that moment.

* `Consistent.openAt`, `Consistent.call`: the table and the lives of the files keep in step.
* `Sound.call`: a call on the descriptor of a file that is open has hit that file.
* `Consistent.closes_meant`: if every call has hit what it was meant for, then a file has been closed
  by its callers once, or not at all.
-/

namespace Descriptors

/-- The life of a file. -/
inductive Life where
  | unborn
  | opened (fd : Nat)
  | closed (fd : Nat)
  deriving DecidableEq, Repr

def Life.isClosed : Life → Bool
  | .closed _ => true
  | _ => false

/-- What a call does: it uses the descriptor in one of the ways `ω`, or closes it. -/
inductive Op (ω : Type*) where
  | use (way : ω)
  | close
  deriving DecidableEq, Repr

def Op.isClose {ω : Type*} : Op ω → Bool
  | .use _ => false
  | .close => true

/-- A call on a descriptor. -/
structure Call (ω δ : Type*) where
  op : Op ω
  meant : δ
  fd : Nat
  hit : Option δ

/-- The table of descriptors, the files, and the calls so far. -/
structure Kernel (ω δ : Type*) where
  file : Nat → Option δ
  life : δ → Life
  calls : List (Call ω δ)

variable {ω δ : Type*} [DecidableEq δ]

namespace Kernel

/-- A file is opened under a descriptor. -/
def openAt (k : Kernel ω δ) (fd : Nat) (d : δ) : Kernel ω δ :=
  { k with
    file := Function.update k.file fd (some d)
    life := Function.update k.life d (.opened fd) }

/-- What a closing call does to the file that it hits. -/
def closeAt (k : Kernel ω δ) (fd : Nat) : Kernel ω δ :=
  match k.file fd with
  | none => k
  | some d =>
      { k with
        file := Function.update k.file fd none
        life := Function.update k.life d (.closed fd) }

/-- A call on a descriptor that the caller takes for that of `meant`. -/
def call (k : Kernel ω δ) (op : Op ω) (meant : δ) (fd : Nat) : Kernel ω δ :=
  { if op.isClose then k.closeAt fd else k with calls := k.calls ++ [⟨op, meant, fd, k.file fd⟩] }

/-- The closing calls that have hit a file. -/
def closes (k : Kernel ω δ) (d : δ) : Nat := k.calls.countP fun c => c.op.isClose && c.hit == some d

/-- The closing calls that were meant for a file. -/
def closesMeant (k : Kernel ω δ) (d : δ) : Nat := k.calls.countP fun c => c.op.isClose && c.meant == d

end Kernel

/-- The table and the lives agree, and closing calls are what closes files. -/
structure Consistent (k : Kernel ω δ) : Prop where
  file_iff : ∀ fd d, k.file fd = some d ↔ k.life d = .opened fd
  closes : ∀ d, k.closes d = if (k.life d).isClosed then 1 else 0

/-- Every call has hit what it was meant for. -/
def Sound (k : Kernel ω δ) : Prop := ∀ c ∈ k.calls, c.hit = some c.meant

variable {k : Kernel ω δ} {fd : Nat} {d : δ}

theorem Consistent.file_of_opened (h : Consistent k) (hd : k.life d = .opened fd) :
    k.file fd = some d := (h.file_iff fd d).mpr hd

theorem life_openAt_self : (k.openAt fd d).life d = .opened fd := Function.update_self ..

theorem life_openAt_of_ne {d' : δ} (hd : d' ≠ d) : (k.openAt fd d).life d' = k.life d' :=
  Function.update_of_ne hd ..

/-- A new file under a free descriptor. -/
theorem Consistent.openAt (h : Consistent k) (hfree : k.file fd = none) (hnew : k.life d = .unborn) :
    Consistent (k.openAt fd d) where
  file_iff fd' d' := by
    simp only [Kernel.openAt]
    by_cases hfd : fd' = fd
    · subst hfd
      rw [Function.update_self]
      by_cases hd : d' = d
      · subst hd
        simp
      · rw [Function.update_of_ne hd, ← h.file_iff, hfree]
        simp [Ne.symm hd]
    · rw [Function.update_of_ne hfd]
      by_cases hd : d' = d
      · subst hd
        rw [Function.update_self, h.file_iff, hnew]
        simp [Ne.symm hfd]
      · rw [Function.update_of_ne hd, h.file_iff]
  closes d' := by
    change k.closes d' = if (Function.update k.life d (.opened fd) d').isClosed then 1 else 0
    rw [h.closes]
    by_cases hd : d' = d
    · subst hd
      rw [Function.update_self, hnew]
      rfl
    · rw [Function.update_of_ne hd]

section CloseAt

theorem file_closeAt : (k.closeAt fd).file = Function.update k.file fd none := by
  unfold Kernel.closeAt
  split
  · next hfile => rw [← hfile, Function.update_eq_self]
  · rfl

theorem life_closeAt (hfile : k.file fd = some d) :
    (k.closeAt fd).life = Function.update k.life d (.closed fd) := by
  unfold Kernel.closeAt
  rw [hfile]

theorem life_closeAt_of_free (hfile : k.file fd = none) : (k.closeAt fd).life = k.life := by
  unfold Kernel.closeAt
  rw [hfile]

end CloseAt

/-! ## A call -/

theorem file_call {op : Op ω} : (k.call op d fd).file =
    if op.isClose then Function.update k.file fd none else k.file := by
  simp only [Kernel.call]
  split
  · exact file_closeAt
  · rfl

theorem life_call_use {op : Op ω} (hop : op.isClose = false) : (k.call op d fd).life = k.life := by
  simp only [Kernel.call]
  rw [hop]
  rfl

/-- The file that is hit by a closing call. -/
theorem life_call_close {op : Op ω} {meant : δ} (hop : op.isClose = true) (hfile : k.file fd = some d) :
    (k.call op meant fd).life = Function.update k.life d (.closed fd) := by
  simp only [Kernel.call]
  rw [if_pos hop]
  exact life_closeAt hfile

theorem closes_call {op : Op ω} {meant d' : δ} : (k.call op meant fd).closes d' =
    k.closes d' + if op.isClose && k.file fd == some d' then 1 else 0 := by
  rw [Kernel.closes, Kernel.closes, Kernel.call, List.countP_append, List.countP_singleton]

theorem Consistent.call (h : Consistent k) (op : Op ω) (meant : δ) (fd : Nat) :
    Consistent (k.call op meant fd) := by
  cases hop : op.isClose with
  | false =>
      refine ⟨?_, ?_⟩
      · intro fd' d'
        rw [file_call, life_call_use hop, hop]
        exact h.file_iff fd' d'
      · intro d'
        rw [closes_call, life_call_use hop, hop, h.closes]
        rfl
  | true =>
      cases hfile : k.file fd with
      | none =>
          have hlife : (k.call op meant fd).life = k.life := by
            simp only [Kernel.call]
            rw [if_pos hop]
            exact life_closeAt_of_free hfile
          refine ⟨?_, ?_⟩
          · intro fd' d'
            rw [file_call, hlife, hop, if_pos rfl, ← h.file_iff, ← hfile, Function.update_eq_self]
          · intro d'
            rw [closes_call, hlife, hfile, h.closes]
            simp
      | some d =>
          have hopen : k.life d = .opened fd := (h.file_iff fd d).mp hfile
          refine ⟨?_, ?_⟩
          · intro fd' d'
            rw [file_call, life_call_close hop hfile, hop, if_pos rfl]
            by_cases hd : d' = d
            · subst hd
              rw [Function.update_self]
              by_cases hfd : fd' = fd
              · subst hfd
                simp
              · rw [Function.update_of_ne hfd, h.file_iff, hopen]
                simp [Ne.symm hfd]
            · rw [Function.update_of_ne hd]
              by_cases hfd : fd' = fd
              · subst hfd
                rw [Function.update_self, ← h.file_iff, hfile]
                simp [Ne.symm hd]
              · rw [Function.update_of_ne hfd, h.file_iff]
          · intro d'
            rw [closes_call, life_call_close hop hfile, h.closes, hop, hfile]
            by_cases hd : d' = d
            · subst hd
              rw [Function.update_self, hopen]
              simp [Life.isClosed]
            · rw [Function.update_of_ne hd]
              simp [Ne.symm hd]

/-- A call on the descriptor of an open file. -/
theorem Sound.call (h : Sound k) (hk : Consistent k) (op : Op ω) (hd : k.life d = .opened fd) :
    Sound (k.call op d fd) := by
  intro c hc
  rw [Kernel.call, List.mem_append, List.mem_singleton] at hc
  rcases hc with hc | rfl
  · exact h c hc
  · exact hk.file_of_opened hd

theorem Sound.openAt (h : Sound k) (fd : Nat) (d : δ) : Sound (k.openAt fd d) := h

/-- **Callers that hit what they mean close a file at most once.** -/
theorem Consistent.closes_meant (h : Consistent k) (hs : Sound k) (d : δ) :
    k.closesMeant d = if (k.life d).isClosed then 1 else 0 := by
  rw [← h.closes, Kernel.closesMeant, Kernel.closes]
  apply List.countP_congr
  intro c hc
  rw [hs c hc]
  simp

end Descriptors
