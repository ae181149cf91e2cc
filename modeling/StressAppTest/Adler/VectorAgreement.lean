import StressAppTest.Adler.Neon
import StressAppTest.Adler.Sse2

/-!
# The copies agree (`adler32memcpy.cc`)

`AdlerMemcpyAsm` of either instruction set, `AdlerMemcpyC` and `AdlerMemcpyWarmC` write the same memory
and return the checksum of the source. The warm copy is taken with its floating-point work, which
decides only whether a line is printed.

* `adlerMemcpyWarmDouble_eq`: that work aside, the warm copy is `AdlerMemcpyC`.
* `adlerMemcpyAsm_x86_eq`, `adlerMemcpyAsm_neon_eq`: the assembly texts compute `adlerMemcpyAsm`.
* `vector_copies_agree`: all of it, for every multiple of 64 below `2^19`.
-/

namespace StressAppTest

/-! ## The warm copy -/

/-- The locals of `AdlerMemcpyWarmC`, and memory. -/
structure Warm where
  mem : Mem
  sum : AdlerChecksum
  a : Float
  b : Float
  c : Float
  d : Float

/-- One pass of its loop. -/
def warmPass (dst src g : Nat) (s : Warm) : Warm :=
  let first := s.mem (src + 2 * g)
  let mem := Function.update s.mem (dst + 2 * g) first
  let a := s.a * s.b
  let b := s.b + s.c
  let second := mem (src + (2 * g + 1))
  let mem' := Function.update mem (dst + (2 * g + 1)) second
  let c := s.c * s.d
  let d := s.d + s.d
  ⟨mem', s.sum.group (low first) (high first) (low second) (high second), a, b, c, d⟩

/-- `AdlerMemcpyWarmC`: copy, checksum, and whether the line that refers to the result is printed. -/
def adlerMemcpyWarmDouble (mem : Mem) (dstmem64 srcmem64 sizeInBytes : Nat) :
    Option (Mem × AdlerChecksum × Bool) :=
  (adlerCount sizeInBytes).map fun count =>
    let first := (UInt64.ofBitVec (mem srcmem64)).toFloat
    let s := forUpTo ((count + 1) / 2) (warmPass dstmem64 srcmem64)
      ⟨mem, AdlerChecksum.seed, 2.0 * first, 5.0 * first, 7.0 * first, 9.0 * first⟩
    (s.mem, s.sum, s.a + s.b + s.c + s.d == 1.0)

theorem forUpTo_warmPass (dst src n : Nat) (s : Warm) :
    ((forUpTo n (warmPass dst src) s).mem, (forUpTo n (warmPass dst src) s).sum) =
      forUpTo n (memcpyPass dst src) (s.mem, s.sum) := by
  induction n with
  | zero => rfl
  | succ n ih =>
      simp only [forUpTo]
      rw [← ih]
      rfl

/-- The doubles do not touch the copy. -/
theorem adlerMemcpyWarmDouble_eq (mem : Mem) (dst src sizeInBytes : Nat) :
    (adlerMemcpyWarmDouble mem dst src sizeInBytes).map (fun r => (r.1, r.2.1)) =
      adlerMemcpyWarmC mem dst src sizeInBytes := by
  simp only [adlerMemcpyWarmDouble, adlerMemcpyWarmC, adlerMemcpyC, Option.map_map]
  refine congrArg (fun f => Option.map f (adlerCount sizeInBytes)) (funext fun count => ?_)
  exact forUpTo_warmPass dst src _ _

/-! ## The assembly texts -/

variable {mem : Mem} {dst src n fuel : Nat}

theorem adlerMemcpyAsm_x86_eq (hn : 3 ≤ n) (hsize : 16 * n < 2 ^ 19) (hd : DisjointWords dst src (2 * n))
    (hdst : dst % 2 = 0) (hsrc : src % 2 = 0) (hfuel : 16 * n ≤ fuel) (xmm : Sse2.Xmm → Asm.Vec) :
    adlerMemcpySse2 fuel xmm mem dst src (16 * n) = adlerMemcpyAsm .x86 mem dst src (16 * n) := by
  have hsteps : Isa.x86.steps (16 * n) = n := by
    simp only [Isa.steps]
    omega
  obtain ⟨hmem, hsum⟩ := forUpTo_copy16 mem hd
  rw [adlerMemcpySse2_eq hn hsize hd hdst hsrc hfuel, adlerMemcpyAsm, if_neg (by omega), if_neg (by omega)]
  simp only [hsteps, hmem, hsum]

theorem adlerMemcpyAsm_neon_eq (hn : 0 < n) (hsize : 64 * n < 2 ^ 19) (hd : DisjointWords dst src (8 * n))
    (hfuel : 64 * n ≤ fuel) (v : Fin 32 → Asm.Vec) :
    adlerMemcpyNeon fuel v mem dst src (64 * n) = adlerMemcpyAsm .neon mem dst src (64 * n) := by
  rw [adlerMemcpyNeon_eq hn hsize hd hfuel, adlerMemcpyAsm_eq hn hsize hd]

/-! ## Agreement -/

/-- The bytes of a copied region. -/
theorem byteAt_copyWords {i : Nat} (hi : i < 8 * n) :
    byteAt (copyWords mem dst src n) (8 * dst + i) = byteAt mem (8 * src + i) := by
  rw [byteAt, byteAt, copyWords, if_pos (by omega), show (8 * dst + i) % 8 = (8 * src + i) % 8 by omega,
    show src + ((8 * dst + i) / 8 - dst) = (8 * src + i) / 8 by omega]

variable (mem) in
/-- Vector and scalar copies agree. The x86 code faults on a region that is not aligned to 16 bytes. -/
theorem vector_copies_agree {sizeInBytes : Nat} (hmul : 64 ∣ sizeInBytes) (hmin : 64 ≤ sizeInBytes)
    (hlt : sizeInBytes < 2 ^ 19) (hd : DisjointWords dst src (sizeInBytes / 8)) (hfuel : sizeInBytes ≤ fuel) :
    ∃ mem' checksum,
      (∀ xmm, dst % 2 = 0 → src % 2 = 0 →
        adlerMemcpySse2 fuel xmm mem dst src sizeInBytes = some (mem', checksum)) ∧
      (∀ v, adlerMemcpyNeon fuel v mem dst src sizeInBytes = some (mem', checksum)) ∧
      adlerMemcpyC mem dst src sizeInBytes = some (mem', checksum) ∧
      (∃ printed, adlerMemcpyWarmDouble mem dst src sizeInBytes = some (mem', checksum, printed)) ∧
      calculateAdlerChecksum mem src sizeInBytes = some checksum ∧
      (∀ i < sizeInBytes, byteAt mem' (8 * dst + i) = byteAt mem (8 * src + i)) ∧
      ∀ a, ¬ (8 * dst ≤ a ∧ a < 8 * dst + sizeInBytes) → byteAt mem' a = byteAt mem a := by
  obtain ⟨n, rfl⟩ := hmul
  have hwords : 64 * n / 8 = 8 * n := by omega
  rw [hwords] at hd
  -- groups of sixteen bytes
  have h16 : 16 * (4 * n) = 64 * n := by omega
  have h2 : 2 * (4 * n) = 8 * n := by omega
  have hcount : adlerCount (64 * n) = some (2 * (4 * n)) := h16 ▸ adlerCount_eq (by omega)
  have hd' : DisjointWords dst src (2 * (4 * n)) := by rwa [h2]
  have hC : adlerMemcpyC mem dst src (64 * n) =
      some (copyWords mem dst src (8 * n), AdlerChecksum.sum (unitAt mem src) (4 * n)) := by
    rw [adlerMemcpyC_eq hcount hd', h2]
  refine ⟨copyWords mem dst src (8 * n), AdlerChecksum.sum (unitAt mem src) (4 * n),
    fun xmm hdst hsrc => ?_, fun v => adlerMemcpyNeon_eq (by omega) hlt hd hfuel v, hC, ?_, ?_, ?_, ?_⟩
  · rw [← h16, adlerMemcpySse2_eq (by omega) (by omega) hd' hdst hsrc (by omega), h2]
  · have hwarm := (adlerMemcpyWarmDouble_eq mem dst src (64 * n)).trans hC
    obtain ⟨⟨m, s, printed⟩, hrun, hpair⟩ := Option.map_eq_some_iff.mp hwarm
    obtain ⟨rfl, rfl⟩ := Prod.mk.inj hpair
    exact ⟨printed, hrun⟩
  · rw [calculateAdlerChecksum_eq hcount, show (2 * (4 * n) + 1) / 2 = 4 * n by omega]
  · intro i hi
    exact byteAt_copyWords (by omega)
  · intro a ha
    rw [byteAt, byteAt, copyWords, if_neg (by omega)]

/-- Eight words behind each other. -/
theorem vector_copies_agree_line :
    ∃ mem' checksum,
      adlerMemcpySse2 64 (fun _ => Asm.Vec.zero) (fun a => BitVec.ofNat 64 a) 8 0 64 = some (mem', checksum) ∧
      adlerMemcpyNeon 64 (fun _ => Asm.Vec.zero) (fun a => BitVec.ofNat 64 a) 8 0 64 = some (mem', checksum) ∧
      adlerMemcpyC (fun a => BitVec.ofNat 64 a) 8 0 64 = some (mem', checksum) ∧
      calculateAdlerChecksum (fun a => BitVec.ofNat 64 a) 0 64 = some checksum ∧
      byteAt mem' 72 = 1 := by
  obtain ⟨mem', checksum, hsse, hneon, hC, -, hcalc, hbytes, -⟩ :=
    vector_copies_agree (fun a => BitVec.ofNat 64 a) (by decide : 64 ∣ 64) (by decide) (by decide)
      (Or.inr (by decide) : DisjointWords 8 0 (64 / 8)) (Nat.le_refl 64)
  refine ⟨mem', checksum, hsse _ (by decide) (by decide), hneon _, hC, hcalc, ?_⟩
  exact (hbytes 8 (by decide)).trans (by decide)

end StressAppTest
