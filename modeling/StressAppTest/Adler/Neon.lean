import StressAppTest.Adler.Vector

/-!
# `AdlerMemcpyAsm` on AArch64 (`adler32memcpy.cc`)

The assembly text of the AArch64 branch, in the blocks its labels and jumps make. Pointers are
byte addresses, kept at multiples of 8. A pass moves 64 bytes; `trn1` and `trn2` with a zero
register spread the even and the odd words of each sixteen over the lanes.

* `pass64`: a pass adds four groups of four words (`Holds`).
* `adlerMemcpyNeon_eq`: copy and checksum, for every positive multiple of 64.
-/

namespace StressAppTest

open Asm

/-! ## The machine -/

namespace Neon

structure State where
  mem : Mem
  /-- `checksum_arr`, which `crc_r` points to. -/
  checksumArr : Mem
  /-- `src_r` -/
  src : Nat
  /-- `dst_r` -/
  dst : Nat
  /-- `blocks_r` -/
  blocks : Word32
  /-- The flags of the last comparison say signed less or equal. -/
  le : Bool
  v : Fin 32 → Vec

/-- The instructions. `ld1` and `st1` move `v`, `v + 1`, `v + 2`, `v + 3` and advance their pointer
by 64; the forms for `crc_r` move one and two registers. -/
inductive Instr
  | cmp (imm : Word32)
  | prfm (offset : Nat)
  | ld1Crc (v : Fin 32)
  | st1Crc (v : Fin 32)
  | dup (v : Fin 32)
  | ld1 (v : Fin 32)
  | st1 (v : Fin 32)
  | trn1 (d n m : Fin 32)
  | trn2 (d n m : Fin 32)
  | add (d n m : Fin 32)
  | sub (imm : Word32)
  deriving DecidableEq, Repr

def State.setV (s : State) (d : Fin 32) (x : Vec) : State := { s with v := Function.update s.v d x }

def exec : Instr → State → Option State
  | .cmp imm, s => some { s with le := s.blocks.sle imm }
  | .prfm _, s => some s
  | .ld1Crc v, s => some (s.setV v (load128 s.checksumArr 0))
  | .st1Crc v, s => some { s with
      checksumArr := store128 (store128 s.checksumArr 0 (s.v v)) 16 (s.v (v + 1)) }
  | .dup v, s => some (s.setV v Vec.zero)
  | .ld1 v, s =>
      let t := (((s.setV v (load128 s.mem s.src)).setV (v + 1) (load128 s.mem (s.src + 16))).setV (v + 2)
        (load128 s.mem (s.src + 32))).setV (v + 3) (load128 s.mem (s.src + 48))
      some { t with src := s.src + 64 }
  | .st1 v, s => some { s with
      mem := store128 (store128 (store128 (store128 s.mem s.dst (s.v v)) (s.dst + 16) (s.v (v + 1)))
        (s.dst + 32) (s.v (v + 2))) (s.dst + 48) (s.v (v + 3))
      dst := s.dst + 64 }
  | .trn1 d n m, s => some (s.setV d ((s.v n).trn1 (s.v m)))
  | .trn2 d n m, s => some (s.setV d ((s.v n).trn2 (s.v m)))
  | .add d n m, s => some (s.setV d ((s.v n).add64 (s.v m)))
  | .sub imm, s => some { s with blocks := s.blocks - imm }

/-! ## The text -/

/-- The blocks: `TOP` and `END`, and those before them. The four `mov` that fill the address and
counter registers are the initial state. -/
inductive Label
  | start
  | init
  | top
  | done
  deriving DecidableEq, Repr

open Instr

def swizzles : List Instr :=
  [dup 12, dup 13, dup 14, dup 15, dup 16,
    trn1 12 8 12, trn2 8 8 16, trn1 13 9 13, trn2 9 9 16,
    trn1 14 10 14, trn2 10 10 16, trn1 15 11 15, trn2 11 11 16]

def sums : List Instr :=
  [add 0 0 12, add 1 1 0, add 0 0 8, add 1 1 0, add 0 0 13, add 1 1 0, add 0 0 9, add 1 1 0,
    add 0 0 14, add 1 1 0, add 0 0 10, add 1 1 0, add 0 0 15, add 1 1 0, add 0 0 11, add 1 1 0]

def body : Label → List Instr
  | .start => [cmp 0]
  | .init => [prfm 0, prfm 64, prfm 128, prfm 192, prfm 256, ld1Crc 0, dup 1]
  | .top => [prfm 320, prfm 384, ld1 8, st1 8] ++ (swizzles ++ (sums ++ [sub 1, cmp 0]))
  | .done => [st1Crc 0]

/-- `ble END`, `bgt TOP`. -/
def next : Label → State → Option Label
  | .start, s => some (if s.le then .done else .init)
  | .init, _ => some .top
  | .top, s => some (if s.le then .done else .top)
  | .done, _ => none

def code : Code State Instr Label := ⟨exec, body, next⟩

end Neon

/-- The initial value of `checksum_arr`. -/
def neonChecksumArr : Mem := fun i => if i < 2 then 1 else 0

/-- `AdlerMemcpyAsm` on AArch64, with what the registers hold before. -/
def adlerMemcpyNeon (fuel : Nat) (v : Fin 32 → Vec) (mem : Mem) (dstmem64 srcmem64 sizeInBytes : Nat) :
    Option (Mem × AdlerChecksum) :=
  if sizeInBytes / 2 ^ 19 > 0 then none
  else
    let blocks := sizeInBytes / 64
    (Neon.code.run fuel .start ⟨mem, neonChecksumArr, 8 * srcmem64, 8 * dstmem64, .ofNat 32 blocks, false,
      v⟩).map fun s =>
        (s.mem, ⟨s.checksumArr 0, s.checksumArr 1, s.checksumArr 2, s.checksumArr 3⟩)

/-! ## Correctness -/

namespace Neon

/-- `v0` and `v1`. -/
def State.acc (s : State) : Vec × Vec := (s.v 0, s.v 1)

/-- The four words of a group, added by their transposes with zero. -/
def addSwizzled (acc : Vec × Vec) (x : Vec) : Vec × Vec := addGroup acc (x.trn1 Vec.zero) (x.trn2 Vec.zero)

theorem checksumOf_addSwizzled (acc : Vec × Vec) (mem : Mem) (src g : Nat) :
    checksumOf (addSwizzled acc (groupVec mem src g)) =
      AdlerChecksum.pass (unitAt mem src) g (checksumOf acc) :=
  checksumOf_addGroup (Vec.lane0_trn1 _) (Vec.lane1_trn1 _) (Vec.lane0_trn2 _) (Vec.lane1_trn2 _)

/-- The state between two blocks after `g` groups of four words. -/
structure Holds (mem : Mem) (dst src g : Nat) (s : State) : Prop where
  mem_eq : s.mem = copyWords mem dst src (2 * g)
  src_eq : s.src = 8 * src + 16 * g
  dst_eq : s.dst = 8 * dst + 16 * g
  sum_eq : checksumOf s.acc = AdlerChecksum.sum (unitAt mem src) g

variable {mem : Mem} {dst src n g : Nat} {s : State}

/-- The block at `TOP`, as the memory and the accumulators see it. -/
theorem exec_top (s : State) :
    ∃ t, code.execAll (code.body .top) s = some t ∧
      t.mem = store128 (store128 (store128 (store128 s.mem s.dst (load128 s.mem s.src)) (s.dst + 16)
        (load128 s.mem (s.src + 16))) (s.dst + 32) (load128 s.mem (s.src + 32))) (s.dst + 48)
          (load128 s.mem (s.src + 48)) ∧
      t.acc = addSwizzled (addSwizzled (addSwizzled (addSwizzled s.acc (load128 s.mem s.src))
        (load128 s.mem (s.src + 16))) (load128 s.mem (s.src + 32))) (load128 s.mem (s.src + 48)) ∧
      t.src = s.src + 64 ∧ t.dst = s.dst + 64 ∧ t.blocks = s.blocks - 1 ∧ t.le = (s.blocks - 1).sle 0 := by
  simp [code, body, swizzles, sums, Code.execAll, exec, State.setV, State.acc, addSwizzled, addGroup]

/-- The load of a group that is still to come. -/
theorem Holds.load_group (h : Holds mem dst src g s) (hd : DisjointWords dst src (2 * n)) {j : Nat}
    (hj : g + j < n) : load128 s.mem (s.src + 16 * j) = groupVec mem src (g + j) := by
  rw [h.src_eq, Nat.add_assoc, ← Nat.mul_add, load128_group, h.mem_eq]
  exact groupVec_copyWords hd (by omega) hj

/-- A pass of the loop adds four groups. -/
theorem pass64 (h : Holds mem dst src g s) (hd : DisjointWords dst src (2 * n)) (hg : g + 3 < n) :
    ∃ t, code.execAll (code.body .top) s = some t ∧ Holds mem dst src (g + 4) t ∧
      t.blocks = s.blocks - 1 ∧ t.le = (s.blocks - 1).sle 0 := by
  obtain ⟨t, hexec, hmem, hacc, hsrc, hdst, hblocks, hle⟩ := exec_top s
  refine ⟨t, hexec, ?_, hblocks, hle⟩
  have hload0 : load128 s.mem s.src = groupVec mem src g := by
    simpa only [Nat.mul_zero, Nat.add_zero] using h.load_group hd (by omega : g + 0 < n)
  have hload1 := h.load_group hd (by omega : g + 1 < n)
  have hload2 := h.load_group hd (by omega : g + 2 < n)
  have hload3 := h.load_group hd (by omega : g + 3 < n)
  constructor
  · rw [hmem, hload0, hload1, hload2, hload3, h.mem_eq, h.dst_eq, store128_group,
      show 8 * dst + 16 * g + 16 = 8 * dst + 16 * (g + 1) by omega, store128_group,
      show 8 * dst + 16 * g + 32 = 8 * dst + 16 * (g + 2) by omega, store128_group,
      show 8 * dst + 16 * g + 48 = 8 * dst + 16 * (g + 3) by omega, store128_group]
  · rw [hsrc, h.src_eq]
    omega
  · rw [hdst, h.dst_eq]
    omega
  · rw [hacc, hload0, hload1, hload2, hload3, checksumOf_addSwizzled, checksumOf_addSwizzled,
      checksumOf_addSwizzled, checksumOf_addSwizzled, h.sum_eq]
    rfl

/-- A counter below `2^31` is not positive only if it is zero. -/
theorem sle_zero {k : Nat} (hk : k < 2 ^ 31) : (BitVec.ofNat 32 k).sle 0 = decide (k = 0) := by
  have hint : (BitVec.ofNat 32 k).toInt = k := by
    rw [BitVec.toInt_eq_toNat_cond, BitVec.toNat_ofNat, Nat.mod_eq_of_lt (by omega), if_pos (by omega)]
  rw [BitVec.sle, hint]
  change decide ((k : Int) ≤ 0) = decide (k = 0)
  rw [decide_eq_decide]
  omega

/-- The blocks before `TOP`, for a counter that is not zero: `v0` becomes 1, 1 and `v1` zero. -/
theorem run_start (mem : Mem) (dst src : Nat) {blocks : Nat} (hlt : blocks + 1 < 2 ^ 31) (le : Bool)
    (v : Fin 32 → Vec) (fuel : Nat) :
    ∃ t, Holds mem dst src 0 t ∧ t.blocks = .ofNat 32 (blocks + 1) ∧
      code.run (fuel + 2) .start ⟨mem, neonChecksumArr, 8 * src, 8 * dst, .ofNat 32 (blocks + 1), le, v⟩ =
        code.run fuel .top t := by
  let s : State := ⟨mem, neonChecksumArr, 8 * src, 8 * dst, .ofNat 32 (blocks + 1), le, v⟩
  let s₁ : State := { s with le := s.blocks.sle 0 }
  let s₂ := (s₁.setV 0 (load128 s₁.checksumArr 0)).setV 1 Vec.zero
  have hnext : code.next .start s₁ = some .init := by
    change some (if (BitVec.ofNat 32 (blocks + 1)).sle 0 then Label.done else Label.init) = _
    rw [sle_zero hlt]
    rfl
  refine ⟨s₂, ⟨?_, rfl, rfl, ?_⟩, rfl, ?_⟩
  · funext a
    exact (if_neg (by omega)).symm
  · have hacc : s₂.acc = (load128 neonChecksumArr 0, Vec.zero) := rfl
    rw [hacc]
    change checksumOf (load128 neonChecksumArr 0, Vec.zero) = AdlerChecksum.seed
    decide
  · exact (Code.run_jump (C := code) rfl hnext (fuel + 1)).trans (Code.run_jump rfl rfl fuel)

/-- The loop, from `TOP` on. -/
theorem run_top (hd : DisjointWords dst src (2 * n)) {blocks : Nat} (hblocks : 4 * (blocks + 1) ≤ n)
    (hlt : blocks + 1 < 2 ^ 31) (h : Holds mem dst src 0 s) (hs : s.blocks = .ofNat 32 (blocks + 1))
    (fuel : Nat) :
    ∃ t, Holds mem dst src (4 * (blocks + 1)) t ∧
      code.run (fuel + (blocks + 1)) .top s = code.run fuel .done t := by
  let P : Nat → State → Prop := fun k t => k ≤ blocks + 1 ∧ Holds mem dst src (4 * (blocks + 1 - k)) t ∧
    t.blocks = .ofNat 32 k
  have hpass : ∀ k t, P (k + 1) t → ∃ u, code.execAll (code.body .top) t = some u ∧ P k u ∧
      code.next .top u = some (if k = 0 then .done else .top) := by
    rintro k t ⟨hk, ht, htb⟩
    obtain ⟨u, hexec, hu, hub, hle⟩ := pass64 ht hd (by omega)
    have hsub : t.blocks - 1 = .ofNat 32 k := by
      rw [htb, BitVec.ofNat_add]
      exact BitVec.add_sub_cancel _ _
    refine ⟨u, hexec, ⟨by omega, ?_, hub.trans hsub⟩, ?_⟩
    · rwa [show 4 * (blocks + 1 - (k + 1)) + 4 = 4 * (blocks + 1 - k) by omega] at hu
    · rw [show code.next .top u = some (if u.le then .done else .top) from rfl, hle, hsub, sle_zero (by omega)]
      simp only [decide_eq_true_eq]
  have hstart : P (blocks + 1) s := by
    refine ⟨Nat.le_refl _, ?_, hs⟩
    rwa [Nat.sub_self]
  obtain ⟨t, ⟨-, ht, -⟩, hrun⟩ := Code.run_loop hpass hstart fuel
  exact ⟨t, ht, hrun⟩

/-- The block at `END` stores the terms. -/
theorem exec_done (s : State) : ∃ t, code.execAll (code.body .done) s = some t ∧ t.mem = s.mem ∧
    (⟨t.checksumArr 0, t.checksumArr 1, t.checksumArr 2, t.checksumArr 3⟩ : AdlerChecksum) =
      checksumOf s.acc := by
  simp [code, body, Code.execAll, exec, store128, checksumOf, State.acc]

end Neon

/-- On disjoint regions the code copies and sums up, for every positive multiple of 64. -/
theorem adlerMemcpyNeon_eq {mem : Mem} {dst src n fuel : Nat} (hn : 0 < n) (hsize : 64 * n < 2 ^ 19)
    (hd : DisjointWords dst src (8 * n)) (hfuel : 64 * n ≤ fuel) (v : Fin 32 → Vec) :
    adlerMemcpyNeon fuel v mem dst src (64 * n) =
      some (copyWords mem dst src (8 * n), AdlerChecksum.sum (unitAt mem src) (4 * n)) := by
  obtain ⟨blocks, rfl⟩ := Nat.exists_eq_succ_of_ne_zero (Nat.pos_iff_ne_zero.mp hn)
  have hblocks : 64 * (blocks + 1) / 64 = blocks + 1 := by omega
  rw [adlerMemcpyNeon, if_neg (by omega), hblocks]
  -- one unit of fuel for each block
  obtain ⟨f, rfl⟩ : ∃ f, fuel = f + 1 + (blocks + 1) + 2 := ⟨fuel - (blocks + 4), by omega⟩
  have hd' : DisjointWords dst src (2 * (4 * (blocks + 1))) := by
    rwa [show 2 * (4 * (blocks + 1)) = 8 * (blocks + 1) by omega]
  obtain ⟨s₁, h₁, hs₁, hrun₁⟩ := Neon.run_start mem dst src (by omega : blocks + 1 < 2 ^ 31) false v
    (f + 1 + (blocks + 1))
  obtain ⟨s₂, h₂, hrun₂⟩ := Neon.run_top hd' (Nat.le_refl _) (by omega) h₁ hs₁ (f + 1)
  obtain ⟨s₃, hexec, hmem, hsum⟩ := Neon.exec_done s₂
  dsimp only
  rw [hrun₁, hrun₂, Code.run_exit hexec rfl, Option.map_some, hmem, hsum, h₂.mem_eq, h₂.sum_eq,
    show 2 * (4 * (blocks + 1)) = 8 * (blocks + 1) by omega]

end StressAppTest
