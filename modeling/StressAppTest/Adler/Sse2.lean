import StressAppTest.Adler.Vector

/-!
# `AdlerMemcpyAsm` on x86 (`adler32memcpy.cc`)

The assembly text of the x86 branch, one `Instr` per line, in the blocks its labels and jumps
make. Pointers are byte addresses. `movdqa`, `movntdq` and the memory operand of `andps` fault on
an address that is not a multiple of 16.

A 48-byte pass loads each 16 bytes twice, four bytes apart, and keeps words 0 and 2 of both
loads. The second load of its last 16 bytes reads four bytes past the unit; these are
masked away. The loop for the remaining words rotates the first load instead.

* `pass48`, `pass16`: a pass of either loop adds its groups of four words (`Holds`).
* `adlerMemcpySse2_eq`: copy and checksum, for every size that is a multiple of 16 and has
  a whole unit.
-/

namespace StressAppTest

open Asm

/-! ## The machine -/

namespace Sse2

inductive Xmm
  | xmm0 | xmm1 | xmm2 | xmm3 | xmm4 | xmm5 | xmm6 | xmm7
  deriving DecidableEq, Repr

/-- The base registers of memory operands. -/
inductive Base
  | rAX | rSI | rDI
  deriving DecidableEq, Repr

/-- The pointers that the code moves. -/
inductive Pointer
  | rSI | rDI
  deriving DecidableEq, Repr

/-- The counters. -/
inductive Counter
  | rCX | rDX
  deriving DecidableEq, Repr

structure State where
  mem : Mem
  /-- `checksum_arr`, which `rAX` points to. It is on the stack and aligned. -/
  checksumArr : Mem
  rSI : Nat
  rDI : Nat
  rCX : Word64
  rDX : Word64
  /-- The zero flag. -/
  zf : Bool
  /-- The sign flag differs from the overflow flag. -/
  lt : Bool
  xmm : Xmm → Vec

/-- The instructions, operands in the order of the text. -/
inductive Instr
  | cmp (imm : Word64) (r : Counter)
  | prefetchnta (disp : Nat) (b : Base)
  | movdqu (disp : Nat) (b : Base) (x : Xmm)
  | movdqa (disp : Nat) (b : Base) (x : Xmm)
  | movdqaTo (x : Xmm) (disp : Nat) (b : Base)
  | movntdq (x : Xmm) (disp : Nat) (b : Base)
  | xorps (x y : Xmm)
  | andps (disp : Nat) (b : Base) (x : Xmm)
  | paddq (x y : Xmm)
  | pshufd (imm : Nat) (x y : Xmm)
  | add (imm : Nat) (p : Pointer)
  | sub (imm : Word64) (r : Counter)
  | dec (r : Counter)
  | sfence
  deriving DecidableEq, Repr

namespace State

def address (s : State) : Nat → Base → Nat
  | disp, .rAX => disp
  | disp, .rSI => s.rSI + disp
  | disp, .rDI => s.rDI + disp

def load (s : State) : Nat → Base → Vec
  | disp, .rAX => load128 s.checksumArr disp
  | disp, .rSI => load128 s.mem (s.rSI + disp)
  | disp, .rDI => load128 s.mem (s.rDI + disp)

def store (s : State) (x : Vec) : Nat → Base → State
  | disp, .rAX => { s with checksumArr := store128 s.checksumArr disp x }
  | disp, .rSI => { s with mem := store128 s.mem (s.rSI + disp) x }
  | disp, .rDI => { s with mem := store128 s.mem (s.rDI + disp) x }

def setXmm (s : State) (x : Xmm) (v : Vec) : State := { s with xmm := Function.update s.xmm x v }

def counter (s : State) : Counter → Word64
  | .rCX => s.rCX
  | .rDX => s.rDX

def setCounter (s : State) (v : Word64) : Counter → State
  | .rCX => { s with rCX := v }
  | .rDX => { s with rDX := v }

/-- The flags of a subtraction. -/
def compare (s : State) (a b : Word64) : State := { s with zf := a == b, lt := a.slt b }

/-- `s'` unless the address of an aligned access is not a multiple of 16. -/
def aligned (s : State) (disp : Nat) (b : Base) (s' : State) : Option State :=
  if s.address disp b % 16 = 0 then some s' else none

end State

/-- One instruction. The flags of `add` are not modelled: `dec` or `cmp` sets them again before a
jump reads them. -/
def exec : Instr → State → Option State
  | .cmp imm r, s => some (s.compare (s.counter r) imm)
  | .prefetchnta _ _, s => some s
  | .movdqu disp b x, s => some (s.setXmm x (s.load disp b))
  | .movdqa disp b x, s => s.aligned disp b (s.setXmm x (s.load disp b))
  | .movdqaTo x disp b, s => s.aligned disp b (s.store (s.xmm x) disp b)
  | .movntdq x disp b, s => s.aligned disp b (s.store (s.xmm x) disp b)
  | .xorps x y, s => some (s.setXmm y ((s.xmm y).xor (s.xmm x)))
  | .andps disp b x, s => s.aligned disp b (s.setXmm x ((s.xmm x).and (s.load disp b)))
  | .paddq x y, s => some (s.setXmm y ((s.xmm y).add64 (s.xmm x)))
  | .pshufd imm x y, s => some (s.setXmm y ((s.xmm x).shuffle imm))
  | .add imm .rSI, s => some { s with rSI := s.rSI + imm }
  | .add imm .rDI, s => some { s with rDI := s.rDI + imm }
  | .sub imm r, s => some ((s.compare (s.counter r) imm).setCounter (s.counter r - imm) r)
  | .dec r, s => some ((s.compare (s.counter r) 1).setCounter (s.counter r - 1) r)
  | .sfence, s => some s

/-! ## The text -/

/-- The blocks: `TOP`, `REM_IS_STILL_NOT_ZERO` and `END`, and those that start after a jump. -/
inductive Label
  | start
  | init
  | top
  | remIsStillNotZero
  | remBody
  | done
  deriving DecidableEq, Repr

open Instr Xmm Base

/-- Six loads of sixteen bytes. -/
def loads : List Instr :=
  [.movdqa 0 rSI xmm0, .movdqu 4 rSI xmm1, .movdqa 16 rSI xmm2, .movdqu 20 rSI xmm3,
    .movdqa 32 rSI xmm4, .movdqu 36 rSI xmm5]

def stores : List Instr := [.movntdq xmm0 0 rDI, .movntdq xmm2 16 rDI, .movntdq xmm4 32 rDI]

def masks : List Instr :=
  [.andps 32 rAX xmm0, .andps 32 rAX xmm1, .andps 32 rAX xmm2, .andps 32 rAX xmm3,
    .andps 32 rAX xmm4, .andps 32 rAX xmm5]

def sums : List Instr :=
  [.paddq xmm0 xmm6, .paddq xmm6 xmm7, .paddq xmm1 xmm6, .paddq xmm6 xmm7,
    .paddq xmm2 xmm6, .paddq xmm6 xmm7, .paddq xmm3 xmm6, .paddq xmm6 xmm7,
    .paddq xmm4 xmm6, .paddq xmm6 xmm7, .paddq xmm5 xmm6, .paddq xmm6 xmm7]

def body : Label → List Instr
  | .start => [.cmp 0 .rCX]
  | .init => [.prefetchnta 0 rSI, .prefetchnta 64 rSI, .movdqu 48 rAX xmm6, .xorps xmm7 xmm7]
  | .top => loads ++ (stores ++ (masks ++ (sums ++
      [.add 48 .rSI, .add 48 .rDI, .prefetchnta 0 rSI, .prefetchnta 64 rSI, .dec .rCX])))
  | .remIsStillNotZero => [.cmp 4 .rDX]
  | .remBody =>
      [.movdqa 0 rSI xmm0, .movdqa 0 rSI xmm5, .pshufd 0x39 xmm5 xmm1, .movntdq xmm0 0 rDI,
        .andps 32 rAX xmm0, .andps 32 rAX xmm1, .paddq xmm0 xmm6, .paddq xmm6 xmm7,
        .paddq xmm1 xmm6, .paddq xmm6 xmm7, .add 16 .rSI, .add 16 .rDI, .sub 4 .rDX]
  | .done => [.movdqaTo xmm6 0 rAX, .movdqaTo xmm7 16 rAX, .sfence]

/-- `jz END`, `jnz TOP`, `jl END`, `jmp REM_IS_STILL_NOT_ZERO`. -/
def next : Label → State → Option Label
  | .start, s => some (if s.zf then .done else .init)
  | .init, _ => some .top
  | .top, s => some (if s.zf then .remIsStillNotZero else .top)
  | .remIsStillNotZero, s => some (if s.lt then .done else .remBody)
  | .remBody, _ => some .remIsStillNotZero
  | .done, _ => none

def code : Code State Instr Label := ⟨exec, body, next⟩

end Sse2

/-- The initial value of `checksum_arr`. -/
def sse2ChecksumArr : Mem := fun i =>
  if i < 4 then 0 else if i < 6 then 0x00000000ffffffff else 1

/-- `AdlerMemcpyAsm` on x86, with what the registers hold before: copy and checksum, or `none` if the
size is refused or the code faults or runs out of fuel. -/
def adlerMemcpySse2 (fuel : Nat) (xmm : Sse2.Xmm → Vec) (mem : Mem)
    (dstmem64 srcmem64 sizeInBytes : Nat) : Option (Mem × AdlerChecksum) :=
  if sizeInBytes / 2 ^ 19 > 0 then none
  else
    let remainingWords := sizeInBytes % 48 / 4
    let numOf48ByteUnits := sizeInBytes / 48
    (Sse2.code.run fuel .start ⟨mem, sse2ChecksumArr, 8 * srcmem64, 8 * dstmem64,
      .ofNat 64 numOf48ByteUnits, .ofNat 64 remainingWords, false, false, xmm⟩).map fun s =>
        (s.mem, ⟨s.checksumArr 0, s.checksumArr 1, s.checksumArr 2, s.checksumArr 3⟩)

/-! ## Correctness -/

namespace Sse2

/-- `xmm6` and `xmm7`. -/
def State.acc (s : State) : Vec × Vec := (s.xmm .xmm6, s.xmm .xmm7)

/-- A load under the mask. -/
def State.masked (s : State) (disp : Nat) : Vec := (s.load disp .rSI).and (load128 s.checksumArr 32)

/-- The state between two blocks after `g` groups of four words. -/
structure Holds (mem : Mem) (dst src g : Nat) (s : State) : Prop where
  mem_eq : s.mem = copyWords mem dst src (2 * g)
  arr_eq : s.checksumArr = sse2ChecksumArr
  rSI_eq : s.rSI = 8 * src + 16 * g
  rDI_eq : s.rDI = 8 * dst + 16 * g
  sum_eq : checksumOf s.acc = AdlerChecksum.sum (unitAt mem src) g

variable {mem : Mem} {dst src n g : Nat} {s : State}

/-- Elements 4 and 5 of `checksum_arr` keep words 0 and 2. -/
theorem load_mask : load128 sse2ChecksumArr 32 = ⟨BitVec.allOnes 32, 0, BitVec.allOnes 32, 0⟩ := by decide

/-- The block at `TOP`, as the memory and the accumulators see it. -/
theorem exec_top (hSI : s.rSI % 16 = 0) (hDI : s.rDI % 16 = 0) :
    ∃ t, code.execAll (code.body .top) s = some t ∧
      t.mem = store128 (store128 (store128 s.mem s.rDI (load128 s.mem s.rSI)) (s.rDI + 16)
        (load128 s.mem (s.rSI + 16))) (s.rDI + 32) (load128 s.mem (s.rSI + 32)) ∧
      t.acc = addGroup (addGroup (addGroup s.acc (s.masked 0) (s.masked 4)) (s.masked 16) (s.masked 20))
        (s.masked 32) (s.masked 36) ∧
      t.checksumArr = s.checksumArr ∧ t.rSI = s.rSI + 48 ∧ t.rDI = s.rDI + 48 ∧ t.rDX = s.rDX ∧
      t.rCX = s.rCX - 1 ∧ t.zf = (s.rCX == 1) := by
  have hSI' : (s.rSI + 32) % 16 = 0 := by omega
  have hDI' : (s.rDI + 32) % 16 = 0 := by omega
  simp [code, body, loads, stores, masks, sums, Code.execAll, exec, State.aligned, State.address,
    State.setXmm, State.store, State.load, State.compare, State.setCounter, State.counter, State.acc,
    State.masked, addGroup, hSI, hDI, hSI', hDI']

/-- The block after `jl END`. -/
theorem exec_remBody (hSI : s.rSI % 16 = 0) (hDI : s.rDI % 16 = 0) :
    ∃ t, code.execAll (code.body .remBody) s = some t ∧
      t.mem = store128 s.mem s.rDI (load128 s.mem s.rSI) ∧
      t.acc = addGroup s.acc (s.masked 0)
        (((load128 s.mem s.rSI).shuffle 0x39).and (load128 s.checksumArr 32)) ∧
      t.checksumArr = s.checksumArr ∧ t.rSI = s.rSI + 16 ∧ t.rDI = s.rDI + 16 ∧ t.rDX = s.rDX - 4 := by
  simp [code, body, Code.execAll, exec, State.aligned, State.address, State.setXmm, State.store, State.load,
    State.compare, State.setCounter, State.counter, State.acc, State.masked, addGroup, hSI, hDI]

/-- Masked loads at a group and four bytes above it add the group. -/
theorem Holds.addGroup_masked (h : Holds mem dst src g s) (hd : DisjointWords dst src (2 * n)) {j : Nat}
    (hj : g + j < n) (acc : Vec × Vec) :
    checksumOf (addGroup acc (s.masked (16 * j)) (s.masked (16 * j + 4))) =
      AdlerChecksum.pass (unitAt mem src) (g + j) (checksumOf acc) := by
  have hunit : ∀ i < 4 * n, unitAt s.mem src i = unitAt mem src i := by
    intro i hi
    rw [h.mem_eq]
    exact unitAt_copyWords hd (by omega) hi
  have hlo : s.load (16 * j) .rSI = groupVec s.mem src (g + j) := by
    rw [State.load, h.rSI_eq, Nat.add_assoc, ← Nat.mul_add, load128_group]
  have hhi : s.load (16 * j + 4) .rSI = ⟨unitAt s.mem src (4 * (g + j) + 1), unitAt s.mem src (4 * (g + j) + 2),
      unitAt s.mem src (4 * (g + j) + 3), unitAt s.mem src (4 * (g + j) + 4)⟩ := by
    rw [State.load, h.rSI_eq, show 8 * src + 16 * g + (16 * j + 4) = 8 * src + 4 * (4 * (g + j) + 1) by omega,
      load128_eq]
  -- the last word of the high load is the one past the group
  refine checksumOf_addGroup ?_ ?_ ?_ ?_
  · rw [State.masked, h.arr_eq, Vec.lane0_and_even load_mask, hlo]
    exact congrArg _ (hunit _ (by omega))
  · rw [State.masked, h.arr_eq, Vec.lane1_and_even load_mask, hlo]
    exact congrArg _ (hunit _ (by omega))
  · rw [State.masked, h.arr_eq, Vec.lane0_and_even load_mask, hhi]
    exact congrArg _ (hunit _ (by omega))
  · rw [State.masked, h.arr_eq, Vec.lane1_and_even load_mask, hhi]
    exact congrArg _ (hunit _ (by omega))

/-- The aligned load of a group that is still to come. -/
theorem Holds.load_group (h : Holds mem dst src g s) (hd : DisjointWords dst src (2 * n)) {j : Nat}
    (hj : g + j < n) : load128 s.mem (s.rSI + 16 * j) = groupVec mem src (g + j) := by
  rw [h.rSI_eq, Nat.add_assoc, ← Nat.mul_add, load128_group, h.mem_eq]
  exact groupVec_copyWords hd (by omega) hj

theorem Holds.aligned (h : Holds mem dst src g s) (hdst : dst % 2 = 0) (hsrc : src % 2 = 0) :
    s.rSI % 16 = 0 ∧ s.rDI % 16 = 0 := by
  have hSI := h.rSI_eq
  have hDI := h.rDI_eq
  omega

/-- A pass of the main loop adds three groups. -/
theorem pass48 (h : Holds mem dst src g s) (hd : DisjointWords dst src (2 * n)) (hdst : dst % 2 = 0)
    (hsrc : src % 2 = 0) (hg : g + 2 < n) :
    ∃ t, code.execAll (code.body .top) s = some t ∧ Holds mem dst src (g + 3) t ∧
      t.rDX = s.rDX ∧ t.rCX = s.rCX - 1 ∧ t.zf = (s.rCX == 1) := by
  obtain ⟨hSI, hDI⟩ := h.aligned hdst hsrc
  obtain ⟨t, hexec, hmem, hacc, harr, hrSI, hrDI, hrDX, hrCX, hzf⟩ := exec_top hSI hDI
  refine ⟨t, hexec, ?_, hrDX, hrCX, hzf⟩
  have hload0 : load128 s.mem s.rSI = groupVec mem src g := by
    simpa only [Nat.mul_zero, Nat.add_zero] using h.load_group hd (by omega : g + 0 < n)
  have hload1 := h.load_group hd (by omega : g + 1 < n)
  have hload2 := h.load_group hd (by omega : g + 2 < n)
  constructor
  · rw [hmem, hload0, hload1, hload2, h.mem_eq, h.rDI_eq, store128_group,
      show 8 * dst + 16 * g + 16 = 8 * dst + 16 * (g + 1) by omega, store128_group,
      show 8 * dst + 16 * g + 32 = 8 * dst + 16 * (g + 2) by omega, store128_group]
  · rw [harr, h.arr_eq]
  · rw [hrSI, h.rSI_eq]
    omega
  · rw [hrDI, h.rDI_eq]
    omega
  · rw [hacc, h.addGroup_masked hd (by omega : g + 2 < n), h.addGroup_masked hd (by omega : g + 1 < n),
      h.addGroup_masked hd (by omega : g + 0 < n), h.sum_eq]
    rfl

/-- A pass of the loop for the remaining words adds one. -/
theorem pass16 (h : Holds mem dst src g s) (hd : DisjointWords dst src (2 * n)) (hdst : dst % 2 = 0)
    (hsrc : src % 2 = 0) (hg : g < n) :
    ∃ t, code.execAll (code.body .remBody) s = some t ∧ Holds mem dst src (g + 1) t ∧ t.rDX = s.rDX - 4 := by
  obtain ⟨hSI, hDI⟩ := h.aligned hdst hsrc
  obtain ⟨t, hexec, hmem, hacc, harr, hrSI, hrDI, hrDX⟩ := exec_remBody hSI hDI
  refine ⟨t, hexec, ?_, hrDX⟩
  have hload : load128 s.mem s.rSI = groupVec mem src g := by
    simpa only [Nat.mul_zero, Nat.add_zero] using h.load_group hd (by omega : g + 0 < n)
  have hmasked : s.masked 0 = (groupVec mem src g).and (load128 sse2ChecksumArr 32) := by
    rw [State.masked, ← hload, h.arr_eq]
    rfl
  constructor
  · rw [hmem, hload, h.mem_eq, h.rDI_eq, store128_group]
  · rw [harr, h.arr_eq]
  · rw [hrSI, h.rSI_eq]
    omega
  · rw [hrDI, h.rDI_eq]
    omega
  · rw [hacc, hmasked, hload, h.arr_eq]
    refine (checksumOf_addGroup ?_ ?_ ?_ ?_).trans (congrArg _ h.sum_eq)
    · exact Vec.lane0_and_even load_mask
    · exact Vec.lane1_and_even load_mask
    · exact Vec.lane0_and_even load_mask
    · exact Vec.lane1_and_even load_mask

/-- The main loop, from `TOP` on. -/
theorem run_top (hd : DisjointWords dst src (2 * n)) (hdst : dst % 2 = 0) (hsrc : src % 2 = 0)
    {units : Nat} (hunits : 3 * (units + 1) ≤ n) (hlt : units + 1 < 2 ^ 64) (h : Holds mem dst src 0 s)
    (hCX : s.rCX = .ofNat 64 (units + 1)) (fuel : Nat) :
    ∃ t, Holds mem dst src (3 * (units + 1)) t ∧ t.rDX = s.rDX ∧
      code.run (fuel + (units + 1)) .top s = code.run fuel .remIsStillNotZero t := by
  let P : Nat → State → Prop := fun k t => k ≤ units + 1 ∧ Holds mem dst src (3 * (units + 1 - k)) t ∧
    t.rCX = .ofNat 64 k ∧ t.rDX = s.rDX
  have hpass : ∀ k t, P (k + 1) t → ∃ u, code.execAll (code.body .top) t = some u ∧ P k u ∧
      code.next .top u = some (if k = 0 then .remIsStillNotZero else .top) := by
    rintro k t ⟨hk, ht, htCX, htDX⟩
    obtain ⟨u, hexec, hu, huDX, huCX, hzf⟩ := pass48 ht hd hdst hsrc (by omega)
    refine ⟨u, hexec, ⟨by omega, ?_, ?_, huDX.trans htDX⟩, ?_⟩
    · rwa [show 3 * (units + 1 - (k + 1)) + 3 = 3 * (units + 1 - k) by omega] at hu
    · rw [huCX, htCX, BitVec.ofNat_add]
      exact BitVec.add_sub_cancel _ _
    · have hone : (BitVec.ofNat 64 (k + 1) == 1) = decide (k = 0) := by
        rw [beq_eq_decide, decide_eq_decide, ← BitVec.toNat_inj, BitVec.toNat_ofNat,
          Nat.mod_eq_of_lt (by omega)]
        exact Nat.succ_inj
      rw [show code.next .top u = some (if u.zf then .remIsStillNotZero else .top) from rfl, hzf, htCX, hone]
      simp only [decide_eq_true_eq]
  have hstart : P (units + 1) s := by
    refine ⟨Nat.le_refl _, ?_, hCX, rfl⟩
    rwa [Nat.sub_self]
  obtain ⟨t, ⟨-, ht, -, htDX⟩, hrun⟩ := Code.run_loop hpass hstart fuel
  exact ⟨t, ht, htDX, hrun⟩

/-- Comparing touches flags only. -/
theorem Holds.compare (h : Holds mem dst src g s) (a b : Word64) : Holds mem dst src g (s.compare a b) :=
  ⟨h.mem_eq, h.arr_eq, h.rSI_eq, h.rDI_eq, h.sum_eq⟩

/-- The loop for the remaining words, up to `END`. -/
theorem run_rem (hd : DisjointWords dst src (2 * n)) (hdst : dst % 2 = 0) (hsrc : src % 2 = 0) {m : Nat}
    (hm : m ≤ 2) (hg : g + m ≤ n) (h : Holds mem dst src g s) (hDX : s.rDX = .ofNat 64 (4 * m)) (fuel : Nat) :
    ∃ t, Holds mem dst src (g + m) t ∧
      code.run (fuel + (2 * m + 1)) .remIsStillNotZero s = code.run fuel .done t := by
  have hnext : ∀ t : State, code.next .remIsStillNotZero (t.compare t.rDX 4) =
      some (if t.rDX.slt 4 then .done else .remBody) := fun _ => rfl
  induction m generalizing g s with
  | zero =>
      refine ⟨s.compare s.rDX 4, h.compare _ _, Code.run_jump rfl ?_ fuel⟩
      rw [hnext, hDX]
      rfl
  | succ m ih =>
      obtain ⟨t, hexec, ht, htDX⟩ := pass16 (h.compare s.rDX 4) hd hdst hsrc (by omega : g < n)
      have htDX' : t.rDX = .ofNat 64 (4 * m) := by
        rw [htDX]
        change s.rDX - 4 = _
        rw [hDX, Nat.mul_succ, BitVec.ofNat_add]
        exact BitVec.add_sub_cancel _ _
      obtain ⟨u, hu, hrun⟩ := ih (by omega) (by omega) ht htDX'
      have hbody : code.next .remIsStillNotZero (s.compare s.rDX 4) = some .remBody := by
        rw [hnext, hDX]
        obtain rfl | rfl : m = 0 ∨ m = 1 := by omega
        · rfl
        · rfl
      refine ⟨u, by rwa [show g + (m + 1) = g + 1 + m by omega], ?_⟩
      rw [← hrun, show fuel + (2 * (m + 1) + 1) = fuel + (2 * m + 1) + 1 + 1 by omega,
        Code.run_jump rfl hbody, Code.run_jump hexec rfl]

/-- The blocks before `TOP`, for a counter that is not zero: `xmm6` becomes 1, 1 and `xmm7` zero. -/
theorem run_start (mem : Mem) (dst src : Nat) {units : Nat} (hlt : units + 1 < 2 ^ 64) (rDX : Word64)
    (zf lt : Bool) (xmm : Xmm → Vec) (fuel : Nat) :
    ∃ t, Holds mem dst src 0 t ∧ t.rCX = .ofNat 64 (units + 1) ∧ t.rDX = rDX ∧
      code.run (fuel + 2) .start ⟨mem, sse2ChecksumArr, 8 * src, 8 * dst, .ofNat 64 (units + 1), rDX, zf, lt,
        xmm⟩ = code.run fuel .top t := by
  let s : State := ⟨mem, sse2ChecksumArr, 8 * src, 8 * dst, .ofNat 64 (units + 1), rDX, zf, lt, xmm⟩
  let s₁ := s.compare s.rCX 0
  let s₂ := s₁.setXmm .xmm6 (load128 s₁.checksumArr 48)
  let s₃ := s₂.setXmm .xmm7 ((s₂.xmm .xmm7).xor (s₂.xmm .xmm7))
  have hnext : code.next .start s₁ = some .init := by
    have hne : (BitVec.ofNat 64 (units + 1) == 0) = false := by
      rw [beq_eq_false_iff_ne, ne_eq, ← BitVec.toNat_inj, BitVec.toNat_ofNat, Nat.mod_eq_of_lt hlt]
      exact Nat.succ_ne_zero units
    change some (if BitVec.ofNat 64 (units + 1) == 0 then Label.done else Label.init) = _
    rw [hne]
    rfl
  have hacc : s₃.acc = (load128 sse2ChecksumArr 48, Vec.zero) := by
    simp only [State.acc, s₃, State.setXmm, Function.update_self, Vec.xor_self]
    rfl
  refine ⟨s₃, ⟨?_, rfl, rfl, rfl, ?_⟩, rfl, rfl, ?_⟩
  · funext a
    exact (if_neg (by omega)).symm
  · rw [hacc]
    change checksumOf (load128 sse2ChecksumArr 48, Vec.zero) = AdlerChecksum.seed
    decide
  · exact (Code.run_jump (C := code) rfl hnext (fuel + 1)).trans (Code.run_jump rfl rfl fuel)

/-- The block at `END` stores the terms. -/
theorem exec_done (s : State) : ∃ t, code.execAll (code.body .done) s = some t ∧ t.mem = s.mem ∧
    (⟨t.checksumArr 0, t.checksumArr 1, t.checksumArr 2, t.checksumArr 3⟩ : AdlerChecksum) =
      checksumOf s.acc := by
  simp [code, body, Code.execAll, exec, State.aligned, State.address, State.store, store128, checksumOf,
    State.acc]

end Sse2

/-- On disjoint aligned regions the code copies and sums up, for every multiple of 16 that has a
whole unit. -/
theorem adlerMemcpySse2_eq {mem : Mem} {dst src n fuel : Nat} (hn : 3 ≤ n) (hsize : 16 * n < 2 ^ 19)
    (hd : DisjointWords dst src (2 * n)) (hdst : dst % 2 = 0) (hsrc : src % 2 = 0) (hfuel : 16 * n ≤ fuel)
    (xmm : Sse2.Xmm → Vec) :
    adlerMemcpySse2 fuel xmm mem dst src (16 * n) =
      some (copyWords mem dst src (2 * n), AdlerChecksum.sum (unitAt mem src) n) := by
  obtain ⟨units, m, hm, rfl⟩ : ∃ units m, m ≤ 2 ∧ n = 3 * (units + 1) + m :=
    ⟨n / 3 - 1, n % 3, by omega, by omega⟩
  have hunits : 16 * (3 * (units + 1) + m) / 48 = units + 1 := by omega
  have hwords : 16 * (3 * (units + 1) + m) % 48 / 4 = 4 * m := by omega
  rw [adlerMemcpySse2, if_neg (by omega), hunits, hwords]
  -- one unit of fuel for each block
  obtain ⟨f, rfl⟩ : ∃ f, fuel = f + 1 + (2 * m + 1) + (units + 1) + 2 :=
    ⟨fuel - (2 * m + units + 5), by omega⟩
  obtain ⟨s₁, h₁, hCX, hDX₁, hrun₁⟩ := Sse2.run_start mem dst src (by omega : units + 1 < 2 ^ 64)
    (.ofNat 64 (4 * m)) false false xmm (f + 1 + (2 * m + 1) + (units + 1))
  obtain ⟨s₂, h₂, hDX₂, hrun₂⟩ := Sse2.run_top hd hdst hsrc (by omega) (by omega) h₁ hCX (f + 1 + (2 * m + 1))
  obtain ⟨s₃, h₃, hrun₃⟩ := Sse2.run_rem hd hdst hsrc hm (Nat.le_refl _) h₂ (hDX₂.trans hDX₁) (f + 1)
  obtain ⟨s₄, hexec, hmem, hsum⟩ := Sse2.exec_done s₃
  dsimp only
  rw [hrun₁, hrun₂, hrun₃, Code.run_exit hexec rfl, Option.map_some, hmem, hsum, h₃.mem_eq, h₃.sum_eq]

end StressAppTest
