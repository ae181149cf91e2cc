import Mathlib.Logic.Function.Basic

/-!
# Vector machine code

`Code` is a text of labelled blocks over any machine: straight-line instructions, which may
fault, and a jump that reads the state they leave. `Code.run` takes one unit of fuel per block,
so a result says that the code ends.

`Vec` is a 128-bit register as four 32-bit words; two neighbouring words are a 64-bit lane.

* `Code.run_loop`: the rule for a block that jumps back to itself a counted number of times.
* `Vec.lane0_add64`, `Vec.lane0_and_even`, `Vec.lane0_trn1`: what an instruction does to lanes.
-/

namespace Asm

/-! ## Code -/

/-- Code with labels `κ` and instructions `ι` for a machine with states `σ`. -/
structure Code (σ ι κ : Type) where
  /-- One instruction; `none` is a fault. -/
  exec : ι → σ → Option σ
  body : κ → List ι
  /-- The label after the block of a label; `none` leaves the code. -/
  next : κ → σ → Option κ

namespace Code

variable {σ ι κ : Type} (C : Code σ ι κ)

/-- Straight-line code. -/
def execAll : List ι → σ → Option σ
  | [], s => some s
  | i :: is, s => (C.exec i s).bind (execAll is)

/-- At most `fuel` blocks, from the block of a label on. -/
def run : Nat → κ → σ → Option σ
  | 0, _, _ => none
  | fuel + 1, l, s => (C.execAll (C.body l) s).bind fun t =>
      match C.next l t with
      | none => some t
      | some l' => run fuel l' t

variable {C}

theorem run_jump {l l' : κ} {s t : σ} (hbody : C.execAll (C.body l) s = some t)
    (hnext : C.next l t = some l') (fuel : Nat) : C.run (fuel + 1) l s = C.run fuel l' t := by
  rw [run, hbody, Option.bind_some, hnext]

theorem run_exit {l : κ} {s t : σ} (hbody : C.execAll (C.body l) s = some t)
    (hnext : C.next l t = none) (fuel : Nat) : C.run (fuel + 1) l s = some t := by
  rw [run, hbody, Option.bind_some, hnext]

/-- A block that jumps back to itself until its counter is used up; `P k` holds with `k` passes
to go. -/
theorem run_loop {P : Nat → σ → Prop} {l out : κ}
    (hpass : ∀ k s, P (k + 1) s → ∃ t, C.execAll (C.body l) s = some t ∧ P k t ∧
      C.next l t = some (if k = 0 then out else l))
    {n : Nat} {s : σ} (hs : P (n + 1) s) (fuel : Nat) :
    ∃ t, P 0 t ∧ C.run (fuel + (n + 1)) l s = C.run fuel out t := by
  induction n generalizing s with
  | zero =>
      obtain ⟨t, hbody, ht, hnext⟩ := hpass 0 s hs
      exact ⟨t, ht, run_jump hbody hnext fuel⟩
  | succ n ih =>
      obtain ⟨t, hbody, ht, hnext⟩ := hpass (n + 1) s hs
      obtain ⟨u, hu, hrun⟩ := ih ht
      refine ⟨u, hu, ?_⟩
      rw [← hrun]
      exact run_jump hbody hnext _

end Code

/-! ## Registers -/

/-- A 128-bit register, from its lowest word on. -/
@[ext]
structure Vec where
  w0 : BitVec 32
  w1 : BitVec 32
  w2 : BitVec 32
  w3 : BitVec 32
  deriving DecidableEq, Repr

namespace Vec

def zero : Vec := ⟨0, 0, 0, 0⟩

/-- The low lane. -/
def lane0 (x : Vec) : BitVec 64 := x.w1 ++ x.w0

/-- The high lane. -/
def lane1 (x : Vec) : BitVec 64 := x.w3 ++ x.w2

def ofLanes (a b : BitVec 64) : Vec :=
  ⟨a.extractLsb' 0 32, a.extractLsb' 32 32, b.extractLsb' 0 32, b.extractLsb' 32 32⟩

/-- The word with an index; only its two low bits count. -/
def word (x : Vec) (i : Nat) : BitVec 32 :=
  if i % 4 = 0 then x.w0 else if i % 4 = 1 then x.w1 else if i % 4 = 2 then x.w2 else x.w3

def and (x y : Vec) : Vec := ⟨x.w0 &&& y.w0, x.w1 &&& y.w1, x.w2 &&& y.w2, x.w3 &&& y.w3⟩

def xor (x y : Vec) : Vec := ⟨x.w0 ^^^ y.w0, x.w1 ^^^ y.w1, x.w2 ^^^ y.w2, x.w3 ^^^ y.w3⟩

/-- Addition in each 64-bit lane. -/
def add64 (x y : Vec) : Vec := ofLanes (x.lane0 + y.lane0) (x.lane1 + y.lane1)

/-- The words that the bit pairs of an immediate select. -/
def shuffle (imm : Nat) (x : Vec) : Vec :=
  ⟨x.word imm, x.word (imm / 4), x.word (imm / 16), x.word (imm / 64)⟩

/-- Transpose: the even words of both. -/
def trn1 (x y : Vec) : Vec := ⟨x.w0, y.w0, x.w2, y.w2⟩

/-- Transpose: the odd words of both. -/
def trn2 (x y : Vec) : Vec := ⟨x.w1, y.w1, x.w3, y.w3⟩

theorem append_halves (a : BitVec 64) : a.extractLsb' 32 32 ++ a.extractLsb' 0 32 = a :=
  (BitVec.extractLsb'_append_extractLsb'_eq_extractLsb' (x := a) rfl).trans BitVec.extractLsb'_eq_self

@[simp] theorem lane0_ofLanes (a b : BitVec 64) : (ofLanes a b).lane0 = a := append_halves a

@[simp] theorem lane1_ofLanes (a b : BitVec 64) : (ofLanes a b).lane1 = b := append_halves b

@[simp] theorem lane0_add64 (x y : Vec) : (x.add64 y).lane0 = x.lane0 + y.lane0 := lane0_ofLanes _ _

@[simp] theorem lane1_add64 (x y : Vec) : (x.add64 y).lane1 = x.lane1 + y.lane1 := lane1_ofLanes _ _

theorem xor_self (x : Vec) : x.xor x = zero := by simp [xor, zero]

/-- A word below a zero word. -/
theorem zero_append (w : BitVec 32) : ((0 : BitVec 32) ++ w : BitVec 64) = w.setWidth 64 := by
  apply BitVec.eq_of_getLsbD_eq
  intro i hi
  rw [BitVec.getLsbD_append, BitVec.getLsbD_setWidth]
  by_cases h : i < 32
  · simp [h, hi]
  · simp [h, BitVec.getLsbD_of_ge w i (by omega)]

section Mask

variable {x mask : Vec} (hmask : mask = ⟨BitVec.allOnes 32, 0, BitVec.allOnes 32, 0⟩)
include hmask

theorem lane0_and_even : (x.and mask).lane0 = x.w0.setWidth 64 := by
  subst hmask
  simp only [lane0, Vec.and, BitVec.and_allOnes]
  exact (congrArg (· ++ x.w0) (BitVec.and_zero)).trans (zero_append _)

theorem lane1_and_even : (x.and mask).lane1 = x.w2.setWidth 64 := by
  subst hmask
  simp only [lane1, Vec.and, BitVec.and_allOnes]
  exact (congrArg (· ++ x.w2) (BitVec.and_zero)).trans (zero_append _)

end Mask

@[simp] theorem lane0_trn1 (x : Vec) : (x.trn1 zero).lane0 = x.w0.setWidth 64 := zero_append _

@[simp] theorem lane1_trn1 (x : Vec) : (x.trn1 zero).lane1 = x.w2.setWidth 64 := zero_append _

@[simp] theorem lane0_trn2 (x : Vec) : (x.trn2 zero).lane0 = x.w1.setWidth 64 := zero_append _

@[simp] theorem lane1_trn2 (x : Vec) : (x.trn2 zero).lane1 = x.w3.setWidth 64 := zero_append _

end Vec

end Asm
