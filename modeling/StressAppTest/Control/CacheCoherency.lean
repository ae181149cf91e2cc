import Mathlib.Algebra.BigOperators.Intervals
import Mathlib.Data.ZMod.Basic
import Mathlib.Logic.Relation
import Mathlib.Tactic.Ring

/-!
# The cache coherency test (`CpuCacheCoherencyThread::Work`, `worker.cc`)

One thread per core increments byte counters. Each line holds one counter for each thread, and a
thread increments its counter in a line that it draws at random. After a round it adds its counters
up, resets them, and compares the sum with the number of increments, as bytes. In odd lines the odd
threads are laid out in reverse order.

A thread is a sequence of single accesses to bytes; the increment itself is a read and a write. What
is shown is that no interleaving makes the comparison fail: no two threads have a byte in common
(`address_inj`), and a thread's own counters, reset ones and added ones together, always account for
the increments of its round (`Accounts`).

The sum is an `int` and the counters are `char`, with or without a sign; the bookkeeping is modulo
256, where neither makes a difference.
-/

namespace StressAppTest.Control

/-- The arguments of the threads, what the layout depends on, and whether `char` has a sign. -/
structure CcTest where
  threadCount : Nat
  cachelineCount : Nat
  incCount : Nat
  cachelineSize : Int
  cacheLineSize : Int
  charSigned : Bool
  errorInjection : Bool

namespace CcTest

/-! ## Layout -/

/-- `line_size` -/
def lineSize (c : CcTest) : Int :=
  if c.cachelineSize ≤ 0 then max c.cacheLineSize 64 else c.cachelineSize

def neededLines (c : CcTest) : Int := (c.threadCount + c.lineSize - 1) / c.lineSize

/-- The offset of a thread in a line. `threadCount / 2 * 2` is `cc_thread_count_ & ~1`. -/
def offset (c : CcTest) (clineNum threadNum : Nat) : Int :=
  if clineNum &&& threadNum &&& 1 ≠ 0 then (c.threadCount / 2 * 2 : Nat) - (threadNum : Int)
  else threadNum

/-- `&cc_cacheline_data_[cline_num].num[offset]`, from the allocated block on. -/
def address (c : CcTest) (threadNum clineNum : Nat) : Int :=
  clineNum * (c.lineSize * c.neededLines) + c.offset clineNum threadNum

section Layout

variable (c : CcTest)

theorem lineSize_pos : 0 < c.lineSize := by
  unfold lineSize
  split <;> omega

/-- The lines of one counter array hold all counters. -/
theorem threadCount_le : (c.threadCount : Int) ≤ c.lineSize * c.neededLines := by
  have hpos := c.lineSize_pos
  have hdiv := Int.mul_ediv_add_emod (c.threadCount + c.lineSize - 1) c.lineSize
  have hmod := Int.emod_lt_of_pos (c.threadCount + c.lineSize - 1) hpos
  rw [neededLines]
  omega

variable {c}

theorem reversed_iff {clineNum threadNum : Nat} :
    clineNum &&& threadNum &&& 1 ≠ 0 ↔ clineNum % 2 = 1 ∧ threadNum % 2 = 1 := by
  rw [Nat.and_one_is_mod, ← Nat.and_mod_two_eq_one]
  omega

/-- **Bounds.** An odd thread is left of the last byte, so that its mirror image is in the array. -/
theorem offset_bounds (clineNum : Nat) {t : Nat} (ht : t < c.threadCount) :
    0 ≤ c.offset clineNum t ∧ c.offset clineNum t < c.threadCount := by
  unfold offset
  by_cases hrev : clineNum &&& t &&& 1 ≠ 0
  · rw [if_pos hrev]
    have hodd := (reversed_iff.mp hrev).2
    omega
  · rw [if_neg hrev]
    omega

/-- Odd threads stay on odd bytes, in either order. -/
theorem offset_inj {clineNum t t' : Nat} (h : c.offset clineNum t = c.offset clineNum t') :
    t = t' := by
  unfold offset at h
  simp only [reversed_iff] at h
  split at h <;> split at h <;> omega

theorem address_inj {t t' l l' : Nat} (ht : t < c.threadCount) (ht' : t' < c.threadCount)
    (h : c.address t l = c.address t' l') : l = l' ∧ t = t' := by
  have hb := offset_bounds l ht
  have hb' := offset_bounds l' ht'
  have hle := c.threadCount_le
  unfold address at h
  generalize c.lineSize * c.neededLines = stride at h hle
  have hline : (l : Int) = l' := by
    have hdiv (k : Nat) (o : Int) (ho : 0 ≤ o ∧ o < c.threadCount) : (k * stride + o) / stride = k := by
      rw [Int.add_comm, Int.add_mul_ediv_right _ _ (by omega),
        Int.ediv_eq_zero_of_lt ho.1 (by omega), Int.zero_add]
    rw [← hdiv l _ hb, h, hdiv l' _ hb']
  have heq : l = l' := Int.ofNat_inj.mp hline
  subst heq
  exact ⟨rfl, offset_inj (Int.add_left_cancel h)⟩

end Layout

/-! ## The threads -/

/-- `kRandomPolynomial` -/
def kRandomPolynomial : BitVec 64 := 0xD800000000000000

/-- `CpuCacheCoherencyThread::SimpleRandom` -/
def simpleRandom (seed : BitVec 64) : BitVec 64 :=
  (seed >>> 1) ^^^ (-(seed &&& 1) &&& kRandomPolynomial)

/-- Where a thread is: at the condition of the outer loop, at the head of the first inner loop,
between the draw of a line, the read and the write of an increment, at the head of the second inner
loop, between its read and its reset, at the comparison, and after the loop. -/
inductive CcPc
  | check
  | next (i : Nat)
  | load (i clineNum : Nat)
  | store (i clineNum : Nat) (value : BitVec 8)
  | sum (clineNum : Nat) (ccGlobalNum : Int)
  | reset (clineNum : Nat) (ccGlobalNum : Int)
  | compare (ccGlobalNum : Int)
  | finished

structure CcThread where
  pc : CcPc
  r : BitVec 64
  errorcount : Nat

/-- A counter as an `int`. -/
def charValue (c : CcTest) (b : BitVec 8) : Int := if c.charSigned then b.toInt else b.toNat

/-- The next access of thread `t`. `again` is the condition of the outer loop. -/
def advance (c : CcTest) (t : Nat) (again : Bool) (mem : Int → BitVec 8) (th : CcThread) :
    (Int → BitVec 8) × CcThread :=
  match th.pc with
  | .check => (mem, { th with pc := if again then .next 0 else .finished })
  | .next i =>
    if i < c.incCount then
      let r := simpleRandom th.r
      (mem, { th with r := r, pc := .load i (r.toNat % c.cachelineCount) })
    else (mem, { th with pc := .sum 0 0 })
  | .load i l => (mem, { th with pc := .store i l (mem (c.address t l)) })
  | .store i l value =>
    (Function.update mem (c.address t l) (value + 1), { th with pc := .next (i + 1) })
  | .sum l s =>
    if l < c.cachelineCount then
      (mem, { th with pc := .reset l ((s + c.charValue (mem (c.address t l))).bmod (2 ^ 32)) })
    else (mem, { th with pc := .compare (if c.errorInjection then -1 else s) })
  | .reset l s => (Function.update mem (c.address t l) 0, { th with pc := .sum (l + 1) s })
  | .compare s =>
    -- `& 0xff` of an `int` is its residue modulo 256, also below zero
    (mem, { th with
      pc := .check
      errorcount := if s % 256 ≠ (c.incCount : Int) % 256 then th.errorcount + 1 else th.errorcount })
  | .finished => (mem, th)

/-- The shared counters and all threads. -/
structure CcState (c : CcTest) where
  mem : Int → BitVec 8
  thread : Fin c.threadCount → CcThread

/-- The counters are zeroed, and no thread has started. The seeds are arbitrary. -/
structure CcInitial (c : CcTest) (s : CcState c) : Prop where
  mem : ∀ l < c.cachelineCount, ∀ o : Int, 0 ≤ o → o < c.threadCount →
    s.mem (l * (c.lineSize * c.neededLines) + o) = 0
  thread : ∀ t, (s.thread t).pc = .check ∧ (s.thread t).errorcount = 0

/-- One access of thread `t`. -/
def CcStep (c : CcTest) (t : Fin c.threadCount) (s s' : CcState c) : Prop :=
  ∃ again, s'.mem = (c.advance t again s.mem (s.thread t)).1 ∧
    s'.thread = Function.update s.thread t (c.advance t again s.mem (s.thread t)).2

/-- The states of all runs, in any interleaving. -/
def CcReachable (c : CcTest) (s : CcState c) : Prop :=
  ∃ s₀, c.CcInitial s₀ ∧ Relation.ReflTransGen (fun s s' => ∃ t, c.CcStep t s s') s₀ s

/-! ## The books of one thread -/

/-- The counters of thread `t` in the lines from `l` on, added up modulo 256. -/
def rest (c : CcTest) (mem : Int → BitVec 8) (t l : Nat) : ZMod 256 :=
  ∑ k ∈ Finset.Ico l c.cachelineCount, ((mem (c.address t k)).toNat : ZMod 256)

/-- The counters of thread `t` in the lines before `l` are zero. -/
def Zeroed (c : CcTest) (mem : Int → BitVec 8) (t l : Nat) : Prop :=
  ∀ k < l, mem (c.address t k) = 0

/-- **The invariant.** What thread `t` has added up and what is left in its counters account for the
increments of the round. -/
def Accounts (c : CcTest) (mem : Int → BitVec 8) (t : Nat) : CcPc → Prop
  | .check | .finished => c.Zeroed mem t c.cachelineCount
  | .next i => i ≤ c.incCount ∧ c.rest mem t 0 = i
  | .load i l => i < c.incCount ∧ l < c.cachelineCount ∧ c.rest mem t 0 = i
  | .store i l value =>
    i < c.incCount ∧ l < c.cachelineCount ∧ mem (c.address t l) = value ∧ c.rest mem t 0 = i
  | .sum l s => l ≤ c.cachelineCount ∧ c.Zeroed mem t l ∧ (s : ZMod 256) + c.rest mem t l = c.incCount
  | .reset l s =>
    l < c.cachelineCount ∧ c.Zeroed mem t l ∧ (s : ZMod 256) + c.rest mem t (l + 1) = c.incCount
  | .compare s => c.Zeroed mem t c.cachelineCount ∧ (s : ZMod 256) = c.incCount

section Books

variable {c : CcTest} {mem mem' : Int → BitVec 8} {t : Nat}

theorem rest_succ {l : Nat} (hl : l < c.cachelineCount) :
    c.rest mem t l = (mem (c.address t l)).toNat + c.rest mem t (l + 1) :=
  Finset.sum_eq_sum_Ico_succ_bot hl _

theorem rest_end : c.rest mem t c.cachelineCount = 0 := by
  rw [rest, Finset.Ico_self, Finset.sum_empty]

theorem rest_of_zeroed (h : c.Zeroed mem t c.cachelineCount) : c.rest mem t 0 = 0 := by
  apply Finset.sum_eq_zero
  intro k hk
  rw [h k (Finset.mem_Ico.mp hk).2]
  rfl

theorem rest_congr (h : ∀ k, mem' (c.address t k) = mem (c.address t k)) (l : Nat) :
    c.rest mem' t l = c.rest mem t l := by
  unfold rest
  simp only [h]

/-- A write to the counter in line `l` changes the sum by the difference. -/
theorem rest_update (mem : Int → BitVec 8) (ht : t < c.threadCount) {l : Nat} (hl : l < c.cachelineCount) (value : BitVec 8) :
    c.rest (Function.update mem (c.address t l) value) t 0 + (mem (c.address t l)).toNat =
      c.rest mem t 0 + value.toNat := by
  have hmem : l ∈ Finset.Ico 0 c.cachelineCount := Finset.mem_Ico.mpr ⟨Nat.zero_le l, hl⟩
  have hother : ∀ k ∈ (Finset.Ico 0 c.cachelineCount).erase l,
      ((Function.update mem (c.address t l) value (c.address t k)).toNat : ZMod 256) =
        (mem (c.address t k)).toNat := by
    intro k hk
    rw [Function.update_of_ne]
    intro heq
    exact (Finset.mem_erase.mp hk).1 (address_inj ht ht heq).1
  unfold rest
  rw [← Finset.add_sum_erase _ _ hmem, ← Finset.add_sum_erase _ (fun k => ((mem _).toNat : ZMod 256)) hmem,
    Finset.sum_congr rfl hother, Function.update_self]
  ring

/-- A reset of the counter in line `l` adds the line to those that are zero, -/
theorem zeroed_reset (ht : t < c.threadCount) {l : Nat} (h : c.Zeroed mem t l) :
    c.Zeroed (Function.update mem (c.address t l) 0) t (l + 1) := by
  intro k hk
  by_cases hkl : k = l
  · subst hkl
    exact Function.update_self _ _ _
  · rw [Function.update_of_ne]
    · exact h k (by omega)
    · intro heq
      exact hkl (address_inj ht ht heq).1

/-- and is not seen in the later ones. -/
theorem rest_reset (ht : t < c.threadCount) (l : Nat) :
    c.rest (Function.update mem (c.address t l) 0) t (l + 1) = c.rest mem t (l + 1) := by
  apply Finset.sum_congr rfl
  intro k hk
  rw [Function.update_of_ne]
  intro heq
  have hlt := (Finset.mem_Ico.mp hk).1
  have := (address_inj ht ht heq).1
  omega

/-- A counter is its value modulo 256, with or without a sign. -/
theorem charValue_cast (b : BitVec 8) : ((c.charValue b : Int) : ZMod 256) = (b.toNat : ZMod 256) := by
  unfold charValue
  split
  · have hmod : b.toInt % 256 = (b.toNat : Int) % 256 := by
      rw [BitVec.toInt_eq_toNat_bmod]
      exact Int.bmod_emod
    rw [(ZMod.intCast_eq_intCast_iff' _ _ 256).mpr hmod, Int.cast_natCast]
  · rw [Int.cast_natCast]

/-- The sum may wrap. -/
theorem bmod_cast (s : Int) : ((s.bmod (2 ^ 32) : Int) : ZMod 256) = s := by
  apply (ZMod.intCast_eq_intCast_iff' _ _ 256).mpr
  have hdvd : ((256 : Nat) : Int) ∣ ((2 ^ 32 : Nat) : Int) := by decide
  rw [← Int.emod_emod_of_dvd (s.bmod (2 ^ 32)) hdvd, Int.bmod_emod, Int.emod_emod_of_dvd s hdvd]

theorem add_one_cast (b : BitVec 8) : (((b + 1).toNat : Nat) : ZMod 256) = b.toNat + 1 := by
  rw [BitVec.toNat_add]
  change (((b.toNat + 1) % 256 : Nat) : ZMod 256) = _
  rw [ZMod.natCast_mod, Nat.cast_succ]

/-- A write of another thread leaves the books as they are. -/
theorem Accounts.congr (h : ∀ k, mem' (c.address t k) = mem (c.address t k)) {pc : CcPc}
    (hacc : c.Accounts mem t pc) : c.Accounts mem' t pc := by
  have hzero {l : Nat} (hz : c.Zeroed mem t l) : c.Zeroed mem' t l := fun k hk => (h k).trans (hz k hk)
  cases pc with
  | check | finished => exact hzero hacc
  | next i => exact ⟨hacc.1, (rest_congr h 0).trans hacc.2⟩
  | load i l => exact ⟨hacc.1, hacc.2.1, (rest_congr h 0).trans hacc.2.2⟩
  | store i l value =>
      exact ⟨hacc.1, hacc.2.1, (h l).trans hacc.2.2.1, (rest_congr h 0).trans hacc.2.2.2⟩
  | sum l s => exact ⟨hacc.1, hzero hacc.2.1, by rw [rest_congr h]; exact hacc.2.2⟩
  | reset l s => exact ⟨hacc.1, hzero hacc.2.1, by rw [rest_congr h]; exact hacc.2.2⟩
  | compare s => exact ⟨hzero hacc.1, hacc.2⟩

/-! ## One step -/

/-- A thread writes to its own counters only. -/
theorem advance_other (again : Bool) (th : CcThread) {a : Int}
    (ha : ∀ l, a ≠ c.address t l) : (c.advance t again mem th).1 a = mem a := by
  unfold advance
  cases th.pc with
  | check | compare | finished | load => rfl
  | next i => dsimp only; split <;> rfl
  | sum l s => dsimp only; split <;> rfl
  | store i l value => exact Function.update_of_ne (ha l) _ _
  | reset l s => exact Function.update_of_ne (ha l) _ _

/-- **The step lemma.** A thread keeps its books, and finds no error. -/
theorem advance_accounts (ht : t < c.threadCount) (hlines : 0 < c.cachelineCount)
    (hinj : c.errorInjection = false) (again : Bool) {th : CcThread} (h : c.Accounts mem t th.pc) :
    c.Accounts (c.advance t again mem th).1 t (c.advance t again mem th).2.pc ∧
      (c.advance t again mem th).2.errorcount = th.errorcount := by
  unfold advance
  cases hpc : th.pc with
  | check =>
      rw [hpc] at h
      refine ⟨?_, rfl⟩
      cases again with
      | false => exact h
      | true => exact ⟨Nat.zero_le _, by rw [rest_of_zeroed h, Nat.cast_zero]⟩
  | next i =>
      rw [hpc] at h
      dsimp only
      by_cases hi : i < c.incCount
      · rw [if_pos hi]
        exact ⟨⟨hi, Nat.mod_lt _ hlines, h.2⟩, rfl⟩
      · have heq : i = c.incCount := Nat.le_antisymm h.1 (by omega)
        rw [if_neg hi]
        refine ⟨⟨Nat.zero_le _, fun k hk => absurd hk (Nat.not_lt_zero k), ?_⟩, rfl⟩
        rw [h.2, heq, Int.cast_zero, zero_add]
  | load i l =>
      rw [hpc] at h
      exact ⟨⟨h.1, h.2.1, rfl, h.2.2⟩, rfl⟩
  | store i l value =>
      rw [hpc] at h
      obtain ⟨hi, hl, hvalue, hrest⟩ := h
      have hupdate := rest_update mem ht hl (value + 1)
      rw [hvalue, hrest, add_one_cast] at hupdate
      refine ⟨⟨hi, ?_⟩, rfl⟩
      have hsum : c.rest (Function.update mem (c.address t l) (value + 1)) t 0 =
          (i : ZMod 256) + 1 := by
        apply add_right_cancel (b := (value.toNat : ZMod 256))
        rw [hupdate]
        ring
      rw [hsum, Nat.cast_succ]
  | sum l s =>
      rw [hpc] at h
      obtain ⟨hle, hzero, hsum⟩ := h
      dsimp only
      by_cases hl : l < c.cachelineCount
      · rw [if_pos hl]
        refine ⟨⟨hl, hzero, ?_⟩, rfl⟩
        rw [bmod_cast, Int.cast_add, charValue_cast, add_assoc, ← rest_succ hl]
        exact hsum
      · have heq : l = c.cachelineCount := by omega
        subst heq
        rw [rest_end, add_zero] at hsum
        rw [if_neg hl, hinj, if_neg Bool.false_ne_true]
        exact ⟨⟨hzero, hsum⟩, rfl⟩
  | reset l s =>
      rw [hpc] at h
      obtain ⟨hl, hzero, hsum⟩ := h
      exact ⟨⟨hl, zeroed_reset ht hzero, by rw [rest_reset ht]; exact hsum⟩, rfl⟩
  | compare s =>
      rw [hpc] at h
      refine ⟨h.1, if_neg ?_⟩
      have hcast : ((s : Int) : ZMod 256) = ((c.incCount : Int) : ZMod 256) := by
        rw [h.2, Int.cast_natCast]
      exact not_not.mpr ((ZMod.intCast_eq_intCast_iff' _ _ 256).mp hcast)
  | finished =>
      refine ⟨?_, rfl⟩
      dsimp only
      exact h

end Books

/-! ## All runs -/

/-- Every thread keeps its books, and no thread has found an error. -/
structure CcInv (c : CcTest) (s : CcState c) : Prop where
  accounts : ∀ t : Fin c.threadCount, c.Accounts s.mem t (s.thread t).pc
  errorcount : ∀ t, (s.thread t).errorcount = 0

section Runs

variable {c : CcTest} {s s' : CcState c}

/-- No thread writes another thread's counter. -/
theorem CcStep.other {t t' : Fin c.threadCount} (hs : c.CcStep t s s') (hne : t' ≠ t) (l : Nat) :
    s'.mem (c.address t' l) = s.mem (c.address t' l) := by
  obtain ⟨again, hmem, -⟩ := hs
  rw [hmem]
  apply advance_other
  intro k heq
  exact hne (Fin.ext (address_inj t'.isLt t.isLt heq).2)

theorem CcInitial.inv (h : c.CcInitial s) : c.CcInv s where
  accounts t := by
    rw [(h.thread t).1]
    intro l hl
    have hb := offset_bounds l t.isLt
    exact h.mem l hl _ hb.1 hb.2
  errorcount t := (h.thread t).2

theorem CcInv.step {t : Fin c.threadCount} (hlines : 0 < c.cachelineCount) (hinj : c.errorInjection = false)
    (h : c.CcInv s) (hs : c.CcStep t s s') : c.CcInv s' := by
  have hother := fun (t' : Fin c.threadCount) (hne : t' ≠ t) => hs.other hne
  obtain ⟨again, hmem, hthread⟩ := hs
  obtain ⟨hacc, herr⟩ := advance_accounts t.isLt hlines hinj again (h.accounts t)
  constructor
  · intro t'
    rw [hthread]
    by_cases ht : t' = t
    · subst ht
      rw [Function.update_self, hmem]
      exact hacc
    · rw [Function.update_of_ne ht]
      exact (h.accounts t').congr (hother t' ht)
  · intro t'
    rw [hthread]
    by_cases ht : t' = t
    · subst ht
      rw [Function.update_self, herr]
      exact h.errorcount t'
    · rw [Function.update_of_ne ht]
      exact h.errorcount t'

theorem CcReachable.inv (hlines : 0 < c.cachelineCount) (hinj : c.errorInjection = false)
    (h : c.CcReachable s) : c.CcInv s := by
  obtain ⟨s₀, h₀, hrun⟩ := h
  induction hrun with
  | refl => exact h₀.inv
  | tail _ hs ih =>
      obtain ⟨t, hs⟩ := hs
      exact ih.step hlines hinj hs

end Runs

/-- **No false alarm.** In every line different threads have different bytes of the line's array,
which is in the lines allocated for it. No step writes another thread's counter, at a comparison the
sum is the number of increments as a byte, and no thread ever counts an error. -/
theorem no_false_alarm (c : CcTest) (hlines : 0 < c.cachelineCount)
    (hinj : c.errorInjection = false) :
    (∀ l t, t < c.threadCount → 0 ≤ c.offset l t ∧ c.offset l t < c.threadCount ∧
      c.offset l t < c.lineSize * c.neededLines) ∧
    (∀ l t t', t < c.threadCount → t' < c.threadCount → t ≠ t' → c.offset l t ≠ c.offset l t') ∧
    (∀ l l' t t', t < c.threadCount → t' < c.threadCount → c.address t l = c.address t' l' →
      l = l' ∧ t = t') ∧
    ∀ s, c.CcReachable s →
      (∀ t, (s.thread t).errorcount = 0) ∧
      (∀ t ccGlobalNum, (s.thread t).pc = .compare ccGlobalNum →
        ccGlobalNum % 256 = (c.incCount : Int) % 256) ∧
      ∀ s' t, c.CcStep t s s' → ∀ t', t' ≠ t → ∀ l,
        s'.mem (c.address t' l) = s.mem (c.address t' l) := by
  refine ⟨?_, ?_, fun _ _ _ _ ht ht' => address_inj ht ht', ?_⟩
  · intro l t ht
    have hb := offset_bounds l ht
    exact ⟨hb.1, hb.2, Int.lt_of_lt_of_le hb.2 c.threadCount_le⟩
  · intro l t t' _ _ hne heq
    exact hne (offset_inj heq)
  · intro s hs
    have hinv := hs.inv hlines hinj
    refine ⟨hinv.errorcount, ?_, fun s' t hstep t' hne => hstep.other hne⟩
    intro t sum hpc
    have hacc := hinv.accounts t
    rw [hpc] at hacc
    apply (ZMod.intCast_eq_intCast_iff' _ _ 256).mp
    rw [hacc.2, Int.cast_natCast]

/-- Seven cores, two lines of 64 bytes and a signed `char`. -/
def sevenCores : CcTest := ⟨7, 2, 1000, 0, -1, true, false⟩

theorem no_false_alarm_sevenCores :
    sevenCores.threadCount = 7 ∧
      ∀ s, sevenCores.CcReachable s → ∀ t, (s.thread t).errorcount = 0 :=
  ⟨rfl, fun s hs => ((no_false_alarm sevenCores (by decide) rfl).2.2.2 s hs).1⟩

end CcTest

end StressAppTest.Control
