import Mathlib.Algebra.BigOperators.Intervals
import StressAppTest.Memory.Agreement

/-!
# What a page copy does (`CrcCopyPage`, `CrcWarmCopyPage` of `worker.cc`)

The content of both pages is arbitrary here. After `k` blocks the source is repaired in the
blocks with a wrong checksum and has right tags, the destination holds the raw copy with tags of
its own, and nothing else has changed (`CopyInv`). Both copies keep this invariant; they differ in
the tags they count. The leftover is repaired before it is copied, and a copy of a source with
errors is filled over.

* `crc_copy_page`: the postcondition of `CrcCopyPage`.
* `warm_copy_agrees`: `CrcWarmCopyPage` returns the same, leaves the same memory and entry, and
  counts the same but for the tags of the destination.
-/

namespace StressAppTest.Sat

open Finset

variable {sat : Sat} {mem : Mem} {dst src base : Nat} {p : Pattern} {n : Nat}

/-! ## Words of a region -/

theorem repairTags_apply {i : Nat} (hi : i < n) :
    sat.repairTags mem base n (base + i) =
      if sat.tagMode = true ∧ i % 8 = 0 then addrToTag (base + i) else mem (base + i) := by
  unfold repairTags
  by_cases htag : sat.tagMode = true
  · rw [if_pos htag, retag_apply]
    exact if_congr (by constructor <;> intro h <;> first | exact ⟨htag, by omega⟩ | omega) rfl rfl
  · rw [if_neg htag, if_neg fun h => htag h.1]

theorem repairTags_of_notMem {a : Nat} (h : ¬ (base ≤ a ∧ a < base + n)) :
    sat.repairTags mem base n a = mem a := by
  unfold repairTags
  split
  · rw [retag_apply, if_neg fun hc => h ⟨hc.1, hc.2.1⟩]
  · rfl

theorem copyTagged_dst {i : Nat} (hi : i < n) :
    sat.copyTagged mem dst src n (dst + i) =
      if sat.tagMode = true ∧ i % 8 = 0 then addrToTag (dst + i) else mem (src + i) := by
  unfold copyTagged
  by_cases htag : sat.tagMode = true
  · rw [if_pos htag, copyRetagged_apply, if_pos (by omega), Nat.add_sub_cancel_left]
    exact if_congr ⟨fun h => ⟨htag, h⟩, fun h => h.2⟩ rfl rfl
  · rw [if_neg htag, if_neg fun h => htag h.1, copyWords, if_pos (by omega), Nat.add_sub_cancel_left]

theorem copyTagged_of_notMem {a : Nat} (h : ¬ (dst ≤ a ∧ a < dst + n)) :
    sat.copyTagged mem dst src n a = mem a := by
  unfold copyTagged
  split
  · rw [copyRetagged_apply, if_neg h]
  · rw [copyWords, if_neg h]

/-- The words of a region that are not what `FillPage` writes there. -/
def wrongCount (sat : Sat) (mem : Mem) (base : Nat) (p : Pattern) (n : Nat) : Nat :=
  (List.range n).countP fun i => mem (base + i) != sat.fillWord base p i

theorem wrongCount_congr {mem' : Mem} (h : ∀ i < n, mem' (base + i) = mem (base + i)) :
    sat.wrongCount mem' base p n = sat.wrongCount mem base p n := by
  refine List.countP_congr fun i hi => ?_
  rw [h i (List.mem_range.mp hi)]

theorem wrongCount_eq_zero : sat.wrongCount mem base p n = 0 ↔ sat.Clean mem base p n := by
  rw [wrongCount, List.countP_eq_zero]
  simp only [List.mem_range, bne_iff_ne, ne_eq, not_not]
  rfl

/-- `CheckRegion` counts the wrong words and fills the region. -/
theorem checkRegion_eq_fill (hbase : base % 8 = 0) :
    sat.checkRegion mem base p (8 * n) 0 =
      (writeWords mem base n (sat.fillWord base p), sat.wrongCount mem base p n) := by
  have heq := checkRegion_eq sat (blockRegion base p (8 * n)) mem
  have hdiv : (blockRegion base p (8 * n)).length / 8 = n := Nat.mul_div_cancel_left n (by norm_num)
  have hword : ∀ i, sat.expected (blockRegion base p (8 * n)) i = sat.fillWord base p i := fun i =>
    regionWord_eq_fillWord hbase i
  refine heq.trans (Prod.ext ?_ ?_)
  · rw [hdiv]
    exact writeWords_congr fun i _ => hword i
  · rw [mismatches, wrongWords, hdiv, ← List.countP_eq_length_filter, wrongCount, List.range_eq_range']
    refine List.countP_congr fun i _ => ?_
    rw [hword, decide_eq_true_eq, bne_iff_ne]
    rfl

/-! ## The page as a whole -/

/-- The checksum of source block `b` is not the one of the pattern. -/
def BlockDiffers (sat : Sat) (mem : Mem) (src : Nat) (p : Pattern) (b : Nat) : Prop :=
  AdlerChecksum.sum (sat.blockUnit mem (src + 512 * b) p) 256 ≠ p.crc

instance (sat : Sat) (mem : Mem) (src : Nat) (p : Pattern) (b : Nat) :
    Decidable (sat.BlockDiffers mem src p b) := inferInstanceAs (Decidable (_ ≠ _))

/-- The wrong words found in block `b`. Its tags have been repaired before. -/
def blockErrors (sat : Sat) (mem : Mem) (src : Nat) (p : Pattern) (b : Nat) : Nat :=
  if sat.BlockDiffers mem src p b then
    sat.wrongCount (sat.repairTags mem (src + 512 * b) 512) (src + 512 * b) p 512
  else 0

/-- The wrong words found in the blocks with a wrong checksum and in the leftover. -/
def pageErrors (sat : Sat) (mem : Mem) (src : Nat) (p : Pattern) : Nat :=
  ∑ b ∈ range (sat.pageLength / 4096), sat.blockErrors mem src p b +
    sat.wrongCount mem (src + 512 * (sat.pageLength / 4096)) p
      (sat.pageWords - 512 * (sat.pageLength / 4096))

/-- Word `i` of the source after its block. -/
def sourceWord (sat : Sat) (mem : Mem) (src : Nat) (p : Pattern) (i : Nat) : Word64 :=
  if sat.BlockDiffers mem src p (i / 512) then sat.fillWord src p i
  else if sat.tagMode = true ∧ i % 8 = 0 then addrToTag (src + i) else mem (src + i)

/-- Word `i` of the destination after its block. -/
def targetWord (sat : Sat) (mem : Mem) (dst src : Nat) (i : Nat) : Word64 :=
  if sat.tagMode = true ∧ i % 8 = 0 then addrToTag (dst + i) else mem (src + i)

/-- A block copy of any memory, that counts `tags` wrong tags. -/
def CopiesAny (sat : Sat) (copy : Mem → Nat → Nat → Pattern → Option AddrCrc)
    (tags : Mem → Nat → Nat → Nat) : Prop :=
  ∀ {mem : Mem} {dst src : Nat} {p : Pattern}, DisjointWords dst src 512 →
    copy mem dst src p = some ⟨sat.copyTagged (sat.repairTags mem src 512) dst src 512,
      tags mem dst src, AdlerChecksum.sum (sat.blockUnit mem src p) 256⟩

/-- The tags that `CrcCopyPage` counts in a block. -/
def copyTags (sat : Sat) (mem : Mem) (dst src : Nat) : Nat :=
  sat.tagErrors mem src 512 + sat.tagErrors mem dst 512

/-- The tags that `CrcWarmCopyPage` counts in a block. -/
def warmTags (sat : Sat) (mem : Mem) (_dst src : Nat) : Nat := sat.tagErrors mem src 512

/-- After `k` blocks of a page copy that started from `mem`. -/
structure CopyInv (sat : Sat) (tags : Mem → Nat → Nat → Nat) (mem : Mem) (dst src : Nat) (p : Pattern)
    (k : Nat) (s : Checked) : Prop where
  source : ∀ i < 512 * k, s.mem (src + i) = sat.sourceWord mem src p i
  target : ∀ i < 512 * k, s.mem (dst + i) = sat.targetWord mem dst src i
  rest : ∀ a, ¬ (src ≤ a ∧ a < src + 512 * k) → ¬ (dst ≤ a ∧ a < dst + 512 * k) → s.mem a = mem a
  errors : s.errors = ∑ b ∈ range k, sat.blockErrors mem src p b
  errorcount : s.errorcount = s.errors +
    ∑ b ∈ range k, tags mem (dst + 512 * b) (src + 512 * b)

theorem blockUnit_congr {mem' : Mem} (h : ∀ i < 512, mem' (src + i) = mem (src + i)) :
    AdlerChecksum.sum (sat.blockUnit mem' src p) 256 = AdlerChecksum.sum (sat.blockUnit mem src p) 256 := by
  refine AdlerChecksum.sum_congr fun i hi => ?_
  have hunit : StressAppTest.unitAt mem' src i = StressAppTest.unitAt mem src i := by
    rw [StressAppTest.unitAt, StressAppTest.unitAt, h _ (by omega)]
  unfold blockUnit
  split
  · rw [crcUnit, crcUnit, hunit]
  · exact hunit

theorem tagErrors_congr {mem' : Mem} (h : ∀ i < n, mem' (base + i) = mem (base + i)) :
    sat.tagErrors mem' base n = sat.tagErrors mem base n := by
  unfold tagErrors
  rw [badTags_congr h]

/-! ## One block -/

/-- What one block of a page copy does: its part of the source and of the destination, and the
counts. -/
structure BlockCopied (sat : Sat) (tags : Nat) (dst src : Nat) (p : Pattern) (s s' : Checked) : Prop where
  source : ∀ i < 512, s'.mem (src + i) = sat.sourceWord s.mem src p i
  target : ∀ i < 512, s'.mem (dst + i) = sat.targetWord s.mem dst src i
  rest : ∀ a, ¬ (src ≤ a ∧ a < src + 512) → ¬ (dst ≤ a ∧ a < dst + 512) → s'.mem a = s.mem a
  errors : s'.errors = s.errors + sat.blockErrors s.mem src p 0
  errorcount : s'.errorcount = s.errorcount + tags + sat.blockErrors s.mem src p 0

theorem copyPageBlock_copied {copy : Mem → Nat → Nat → Pattern → Option AddrCrc}
    {tags : Mem → Nat → Nat → Nat} (hcopy : sat.CopiesAny copy tags) (marker : Word64) {k : Nat}
    (hsrc : src % 8 = 0) (hd : DisjointWords (dst + 512 * k) (src + 512 * k) 512) (s : Checked) :
    sat.BlockCopied (tags s.mem (dst + 512 * k) (src + 512 * k)) (dst + 512 * k) (src + 512 * k) p s
      (sat.copyPageBlock copy marker dst src p k s) := by
  have hst : (src + 512 * k) % 8 = 0 := by omega
  generalize hs : src + 512 * k = st at hd hst ⊢
  generalize ht : dst + 512 * k = tt at hd ⊢
  obtain ⟨m, hm⟩ : ∃ m, m = sat.copyTagged (sat.repairTags s.mem st 512) tt st 512 := ⟨_, rfl⟩
  -- the memory after the copy, word by word
  have hsource : ∀ i < 512, m (st + i) = sat.repairTags s.mem st 512 (st + i) :=
    fun i hi => by rw [hm, copyTagged_src hd hi]
  have htarget : ∀ i < 512, m (tt + i) = sat.targetWord s.mem tt st i := by
    intro i hi
    rw [hm, copyTagged_dst hi, targetWord]
    split
    · rfl
    · next h => rw [repairTags_apply hi, if_neg h]
  have hrest : ∀ a, ¬ (st ≤ a ∧ a < st + 512) → ¬ (tt ≤ a ∧ a < tt + 512) → m a = s.mem a := by
    intro a ha ha'
    rw [hm, copyTagged_of_notMem ha', repairTags_of_notMem ha]
  have hrun : sat.copyPageBlock copy marker dst src p k s =
      if AdlerChecksum.sum (sat.blockUnit s.mem st p) 256 = p.crc then
        ⟨m, s.errors, s.errorcount + tags s.mem tt st⟩
      else sat.recheckBlock marker tt st p ⟨m, s.errors, s.errorcount + tags s.mem tt st⟩ := by
    simp only [copyPageBlock, hs, ht, hcopy hd, hm]
  rw [hrun]
  by_cases hsum : AdlerChecksum.sum (sat.blockUnit s.mem st p) 256 = p.crc
  · have hsame : ¬ sat.BlockDiffers s.mem st p 0 := fun h => h hsum
    rw [if_pos hsum]
    refine ⟨?_, htarget, hrest, ?_, ?_⟩
    · intro i hi
      dsimp only
      rw [hsource i hi, repairTags_apply hi, sourceWord, show i / 512 = 0 by omega, if_neg hsame]
    · rw [blockErrors, if_neg hsame]
      rfl
    · rw [blockErrors, if_neg hsame]
      rfl
  · have hdiff : sat.BlockDiffers s.mem st p 0 := hsum
    have hpos : (sat.checkRegion m st p 4096 0).2 ≠ 0 :=
      Nat.pos_iff_ne_zero.mp (checkRegion_pos hst hsource hsum)
    have hcheck : sat.checkRegion m st p 4096 0 =
        (writeWords m st 512 (sat.fillWord st p), sat.blockErrors s.mem st p 0) := by
      have h4096 : sat.checkRegion m st p (8 * 512) 0 = _ := checkRegion_eq_fill hst
      rw [blockErrors, if_pos hdiff, Nat.mul_zero, Nat.add_zero, ← wrongCount_congr hsource]
      exact h4096
    rw [if_neg hsum, recheckBlock_eq (s := ⟨m, s.errors, s.errorcount + tags s.mem tt st⟩) hpos]
    simp only [hcheck]
    refine ⟨?_, ?_, ?_, rfl, rfl⟩
    · intro i hi
      dsimp only
      rw [writeWords_apply hi, sourceWord, show i / 512 = 0 by omega, if_pos hdiff]
    · intro i hi
      dsimp only
      unfold DisjointWords at hd
      rw [writeWords_of_notMem (by omega), htarget i hi]
    · intro a ha ha'
      dsimp only
      rw [writeWords_of_notMem ha, hrest a ha ha']

/-! ## All blocks -/

/-- Memory that is the same on block `b` of the source. -/
theorem blockDiffers_congr {mem' : Mem} {b : Nat}
    (h : ∀ i < 512, mem' (src + 512 * b + i) = mem (src + 512 * b + i)) :
    sat.BlockDiffers mem' (src + 512 * b) p 0 ↔ sat.BlockDiffers mem src p b := by
  unfold BlockDiffers
  rw [Nat.mul_zero, Nat.add_zero, blockUnit_congr h]

theorem repairTags_congr {mem' : Mem} (h : ∀ i < n, mem' (base + i) = mem (base + i)) :
    ∀ i < n, sat.repairTags mem' base n (base + i) = sat.repairTags mem base n (base + i) := by
  intro i hi
  rw [repairTags_apply hi, repairTags_apply hi, h i hi]

theorem blockErrors_congr {mem' : Mem} {b : Nat}
    (h : ∀ i < 512, mem' (src + 512 * b + i) = mem (src + 512 * b + i)) :
    sat.blockErrors mem' (src + 512 * b) p 0 = sat.blockErrors mem src p b := by
  unfold blockErrors
  rw [Nat.mul_zero, Nat.add_zero, wrongCount_congr (repairTags_congr h)]
  exact if_congr (blockDiffers_congr h) rfl rfl

/-- The words of a block, seen from the page. -/
theorem sourceWord_block {mem' : Mem} {b i : Nat} (hi : i < 512)
    (h : ∀ i < 512, mem' (src + 512 * b + i) = mem (src + 512 * b + i)) :
    sat.sourceWord mem' (src + 512 * b) p i = sat.sourceWord mem src p (512 * b + i) := by
  have hmod : (512 * b + i) % 8 = i % 8 := by omega
  rw [sourceWord, sourceWord, show i / 512 = 0 by omega, show (512 * b + i) / 512 = b by omega, hmod,
    ← fillWord_add, ← Nat.add_assoc, h i hi]
  exact if_congr (blockDiffers_congr h) rfl rfl

theorem targetWord_block {mem' : Mem} {b i : Nat} (hi : i < 512)
    (h : ∀ i < 512, mem' (src + 512 * b + i) = mem (src + 512 * b + i)) :
    sat.targetWord mem' (dst + 512 * b) (src + 512 * b) i = sat.targetWord mem dst src (512 * b + i) := by
  have hmod : (512 * b + i) % 8 = i % 8 := by omega
  rw [targetWord, targetWord, hmod, ← Nat.add_assoc, ← Nat.add_assoc, h i hi]

/-- Counts of tags that look at the two blocks only. -/
def TagsLocal (tags : Mem → Nat → Nat → Nat) : Prop :=
  ∀ {mem mem' : Mem} {dst src : Nat}, (∀ i < 512, mem' (src + i) = mem (src + i)) →
    (∀ i < 512, mem' (dst + i) = mem (dst + i)) → tags mem' dst src = tags mem dst src

section Copies

variable {copy : Mem → Nat → Nat → Pattern → Option AddrCrc} {tags : Mem → Nat → Nat → Nat}

/-- **One block** keeps the invariant. -/
theorem CopyInv.block (hcopy : sat.CopiesAny copy tags) (htags : TagsLocal tags) (marker : Word64)
    (hsrc : src % 8 = 0) (hd : DisjointWords dst src sat.pageWords) {k : Nat}
    (hk : 512 * k + 512 ≤ sat.pageWords) {s : Checked} (h : sat.CopyInv tags mem dst src p k s) :
    sat.CopyInv tags mem dst src p (k + 1) (sat.copyPageBlock copy marker dst src p k s) := by
  have hone := copyPageBlock_copied (p := p) hcopy marker hsrc (hd.block hk) s
  unfold DisjointWords at hd
  -- both blocks are as they were
  have hsource : ∀ i < 512, s.mem (src + 512 * k + i) = mem (src + 512 * k + i) := fun i hi =>
    h.rest _ (by omega) (by omega)
  have htarget : ∀ i < 512, s.mem (dst + 512 * k + i) = mem (dst + 512 * k + i) := fun i hi =>
    h.rest _ (by omega) (by omega)
  have hold {a : Nat} (ha : ¬ (src + 512 * k ≤ a ∧ a < src + 512 * k + 512))
      (ha' : ¬ (dst + 512 * k ≤ a ∧ a < dst + 512 * k + 512)) :
      (sat.copyPageBlock copy marker dst src p k s).mem a = s.mem a := hone.rest a ha ha'
  constructor
  · intro i hi
    by_cases hnew : 512 * k ≤ i
    · obtain ⟨j, rfl⟩ := Nat.exists_eq_add_of_le hnew
      rw [← Nat.add_assoc, hone.source j (by omega), sourceWord_block (by omega) hsource]
    · rw [hold (by omega) (by omega), h.source i (by omega)]
  · intro i hi
    by_cases hnew : 512 * k ≤ i
    · obtain ⟨j, rfl⟩ := Nat.exists_eq_add_of_le hnew
      rw [← Nat.add_assoc, hone.target j (by omega), targetWord_block (by omega) hsource]
    · rw [hold (by omega) (by omega), h.target i (by omega)]
  · intro a ha ha'
    rw [hold (by omega) (by omega), h.rest a (by omega) (by omega)]
  · rw [hone.errors, h.errors, blockErrors_congr hsource, sum_range_succ]
  · rw [hone.errorcount, hone.errors, h.errorcount, blockErrors_congr hsource, htags hsource htarget,
      sum_range_succ]
    omega

/-- **All blocks.** -/
theorem copyInv_blocks (hcopy : sat.CopiesAny copy tags) (htags : TagsLocal tags) (marker : Word64)
    (hsrc : src % 8 = 0) (hd : DisjointWords dst src sat.pageWords) :
    sat.CopyInv tags mem dst src p (sat.pageLength / 4096)
      (forUpTo (sat.pageLength / 4096) (sat.copyPageBlock copy marker dst src p) ⟨mem, 0, 0⟩) := by
  refine forUpTo_inv (fun k s => sat.CopyInv tags mem dst src p k s) ?_ ?_
  · exact ⟨fun i hi => absurd hi (by omega), fun i hi => absurd hi (by omega), fun _ _ _ => rfl, rfl, rfl⟩
  · intro k hk s h
    exact h.block hcopy htags marker hsrc hd (pageWords_blocks sat hk)

/-! ## The leftover -/

theorem retag_copyWords (mem : Mem) (dst src n : Nat) :
    retag (copyWords mem dst src n) dst n = copyRetagged mem dst src n := by
  funext a
  rw [retag_apply, copyRetagged_apply, copyWords]
  by_cases hin : dst ≤ a ∧ a < dst + n
  · rw [if_pos hin, if_pos hin]
    exact if_congr (by omega) rfl rfl
  · rw [if_neg (by omega), if_neg hin, if_neg hin]

/-- `memcpy` and, in tag mode, `TagAddrC`. -/
theorem copyTagged_eq (sat : Sat) (mem : Mem) (dst src n : Nat) :
    (if sat.tagMode then tagAddrC (copyWords mem dst src n) dst (8 * n) else copyWords mem dst src n) =
      sat.copyTagged mem dst src n := by
  unfold copyTagged
  split
  · rw [retag_eq_tagAddrC, retag_copyWords]
  · rfl

/-- What a whole page copy does before it fills. -/
structure PageCopied (sat : Sat) (tags : Mem → Nat → Nat → Nat) (mem : Mem) (dst src : Nat) (p : Pattern)
    (s : Checked) : Prop where
  blocks : ∀ i < 512 * (sat.pageLength / 4096), s.mem (src + i) = sat.sourceWord mem src p i
  leftover : ∀ i, 512 * (sat.pageLength / 4096) ≤ i → i < sat.pageWords →
    s.mem (src + i) = sat.fillWord src p i
  target : s.errors = 0 → ∀ i < sat.pageWords, s.mem (dst + i) = sat.targetWord mem dst src i
  rest : ∀ a, ¬ (src ≤ a ∧ a < src + sat.pageWords) → ¬ (dst ≤ a ∧ a < dst + sat.pageWords) →
    s.mem a = mem a
  errors : s.errors = sat.pageErrors mem src p
  errorcount : s.errorcount = s.errors +
    ∑ b ∈ range (sat.pageLength / 4096), tags mem (dst + 512 * b) (src + 512 * b)

theorem CopyInv.leftovers (hsrc : src % 8 = 0) (hd : DisjointWords dst src sat.pageWords) {s : Checked}
    (h : sat.CopyInv tags mem dst src p (sat.pageLength / 4096) s) :
    sat.PageCopied tags mem dst src p (sat.copyLeftovers dst src p s) := by
  have hle : 512 * (sat.pageLength / 4096) ≤ sat.pageWords := by
    unfold pageWords
    omega
  have hmod := pageLength_mod sat
  rw [copyLeftovers]
  split
  · next h0 =>
    -- whole blocks only
    have hwords : 512 * (sat.pageLength / 4096) = sat.pageWords := by omega
    refine ⟨h.source, fun i hi hlt => by omega, ?_, ?_, ?_, h.errorcount⟩
    · intro _ i hi
      exact h.target i (by omega)
    · intro a ha ha'
      exact h.rest a (by omega) (by omega)
    · rw [h.errors, pageErrors, hwords, Nat.sub_self]
      rfl
  · rw [hmod]
    obtain ⟨off, hoff⟩ : ∃ off, off = 512 * (sat.pageLength / 4096) := ⟨_, rfl⟩
    obtain ⟨m, hm⟩ : ∃ m, m = sat.pageWords - off := ⟨_, rfl⟩
    have hst : (src + off) % 8 = 0 := by omega
    have hdoff : dst + off + m ≤ src + off ∨ src + off + m ≤ dst + off := by
      unfold DisjointWords at hd
      omega
    unfold DisjointWords at hd
    have hsource : ∀ i < m, s.mem (src + off + i) = mem (src + off + i) := fun i hi =>
      h.rest _ (by omega) (by omega)
    have hcount : sat.wrongCount s.mem (src + off) p m = sat.wrongCount mem (src + off) p m :=
      wrongCount_congr hsource
    have hfill (i : Nat) : sat.fillWord (src + off) p i = sat.fillWord src p (off + i) := by
      rw [hoff, fillWord_add]
    simp only [← hoff, ← hm, checkRegion_eq_fill hst, Nat.mul_div_cancel_left m (by norm_num : 0 < 8),
      copyTagged_eq]
    obtain ⟨w, hw⟩ : ∃ w, w = writeWords s.mem (src + off) m (sat.fillWord (src + off) p) := ⟨_, rfl⟩
    -- the source is repaired, then copied
    have hold {a : Nat} (ha : ¬ (src + off ≤ a ∧ a < src + off + m))
        (ha' : ¬ (dst + off ≤ a ∧ a < dst + off + m)) :
        sat.copyTagged w (dst + off) (src + off) m a = s.mem a := by
      rw [copyTagged_of_notMem ha', hw, writeWords_of_notMem ha]
    rw [← hw]
    constructor
    · intro i hi
      dsimp only
      rw [hold (by omega) (by omega), h.source i hi]
    · intro i hi hlt
      obtain ⟨j, rfl⟩ := Nat.exists_eq_add_of_le (hoff ▸ hi : off ≤ i)
      dsimp only
      rw [← Nat.add_assoc, copyTagged_of_notMem (by omega), hw, writeWords_apply (by omega), hfill]
    · intro hzero i hi
      dsimp only at hzero ⊢
      by_cases hnew : off ≤ i
      · obtain ⟨j, rfl⟩ := Nat.exists_eq_add_of_le hnew
        have hclean : sat.Clean mem (src + off) p m := by
          rw [← wrongCount_eq_zero, ← hcount]
          omega
        have hj : j < m := by omega
        rw [← Nat.add_assoc, copyTagged_dst hj, targetWord, show (off + j) % 8 = j % 8 by omega,
          ← Nat.add_assoc, ← Nat.add_assoc, hw, writeWords_apply hj, hclean j hj]
      · rw [hold (by omega) (by omega), h.target i (by omega)]
    · intro a ha ha'
      dsimp only
      rw [hold (by omega) (by omega), h.rest a (by omega) (by omega)]
    · dsimp only
      rw [h.errors, hcount, pageErrors, ← hoff, ← hm]
    · dsimp only
      rw [h.errorcount]
      omega

/-! ## The whole copy -/

/-- The memory a page copy leaves. -/
def copiedMem (sat : Sat) (mem : Mem) (dst src : Nat) (p : Pattern) : Mem := fun a =>
  if dst ≤ a ∧ a < dst + sat.pageWords then
    if sat.pageErrors mem src p = 0 then sat.targetWord mem dst src (a - dst)
    else sat.fillWord dst p (a - dst)
  else if src ≤ a ∧ a < src + sat.pageWords then
    if a - src < 512 * (sat.pageLength / 4096) then sat.sourceWord mem src p (a - src)
    else sat.fillWord src p (a - src)
  else mem a

/-- Outside the destination, `PageCopied` is the memory above. -/
theorem PageCopied.mem_eq {s : Checked} (h : sat.PageCopied tags mem dst src p s) {a : Nat}
    (ha : ¬ (dst ≤ a ∧ a < dst + sat.pageWords)) : s.mem a = sat.copiedMem mem dst src p a := by
  rw [copiedMem, if_neg ha]
  by_cases hin : src ≤ a ∧ a < src + sat.pageWords
  · rw [if_pos hin]
    obtain ⟨i, rfl⟩ := Nat.exists_eq_add_of_le hin.1
    rw [Nat.add_sub_cancel_left]
    split
    · next hblock => exact h.blocks i hblock
    · next hblock => exact h.leftover i (by omega) (by omega)
  · rw [if_neg hin, h.rest a hin ha]

theorem copyPageWith_eq (hcopy : sat.CopiesAny copy tags) (htags : TagsLocal tags) (marker : Word64)
    (hsrc : src % 8 = 0) (hd : DisjointWords dst src sat.pageWords) :
    sat.copyPageWith copy marker mem dst src p =
      ⟨sat.copiedMem mem dst src p, sat.pageErrors mem src p, sat.pageErrors mem src p +
        ∑ b ∈ range (sat.pageLength / 4096), tags mem (dst + 512 * b) (src + 512 * b)⟩ := by
  have hblocks : sat.CopyInv tags mem dst src p _ _ := copyInv_blocks hcopy htags marker hsrc hd
  have hpage := hblocks.leftovers hsrc hd
  rw [copyPageWith]
  generalize sat.copyLeftovers dst src p (forUpTo (sat.pageLength / 4096)
    (sat.copyPageBlock copy marker dst src p) ⟨mem, 0, 0⟩) = s at hpage
  have herrors := hpage.errors
  have hcount := hpage.errorcount
  rw [herrors] at hcount
  have hmem : (if s.errors ≠ 0 then sat.fillPage s.mem dst p else s.mem) = sat.copiedMem mem dst src p := by
    funext a
    by_cases ha : dst ≤ a ∧ a < dst + sat.pageWords
    · obtain ⟨i, rfl⟩ := Nat.exists_eq_add_of_le ha.1
      rw [copiedMem, if_pos ha, ← herrors, Nat.add_sub_cancel_left]
      by_cases hzero : s.errors = 0
      · rw [if_pos hzero, if_neg (not_not.mpr hzero), hpage.target hzero i (by omega)]
      · rw [if_neg hzero, if_pos hzero, fillPage_eq, writeWords_apply (by omega)]
    · rw [← hpage.mem_eq ha]
      split
      · rw [fillPage_eq, writeWords_of_notMem ha]
      · rfl
  split
  · next hne =>
    rw [if_pos hne] at hmem
    rw [hmem, herrors, hcount]
  · next hne =>
    rw [if_neg hne] at hmem
    rw [← hmem, ← herrors, herrors, ← hcount, ← herrors]

end Copies

theorem copiesAny_copyBlock (sat : Sat) : sat.CopiesAny sat.copyBlock sat.copyTags :=
  fun hd => copyBlock_eq sat hd

theorem copiesAny_warmCopyBlock (sat : Sat) : sat.CopiesAny sat.warmCopyBlock sat.warmTags :=
  fun hd => warmCopyBlock_eq sat hd

theorem tagsLocal_copyTags (sat : Sat) : TagsLocal sat.copyTags := by
  intro mem mem' dst src hsrc hdst
  rw [copyTags, copyTags, tagErrors_congr hsrc, tagErrors_congr hdst]

theorem tagsLocal_warmTags (sat : Sat) : TagsLocal sat.warmTags := by
  intro mem mem' dst src hsrc _
  rw [warmTags, warmTags, tagErrors_congr hsrc]

/-- What `sched_getcpu()` and `current_dram_frequency()` return for the copy, and for the fill
over it. -/
structure Stamps where
  lastcpu : Word32
  writeDramFrequency : Int
  fillLastcpu : Word32
  fillWriteDramFrequency : Int

/-- A page copy on entries: the result and the destination entry it leaves. A source without a
pattern cannot be copied. -/
def copyEntry (copyPage : Mem → Nat → Nat → Pattern → Checked) (stamps : Stamps) (mem : Mem)
    (dstpe srcpe : PageEntry) : Option (Checked × PageEntry) :=
  srcpe.pattern.map fun p =>
    let r := copyPage mem dstpe.memblock srcpe.memblock p
    (r, { dstpe with
      pattern := some p
      lastcpu := if r.errors ≠ 0 then stamps.fillLastcpu else stamps.lastcpu
      writeDramFrequency :=
        if r.errors ≠ 0 then stamps.fillWriteDramFrequency else stamps.writeDramFrequency })

/-- **`CrcCopyPage`.** On pages that do not overlap it returns the wrong words found in the
blocks with a wrong checksum and in the leftover. Without errors the destination is the source
with tags of its own, with errors it is what `FillPage` writes. The source is repaired in these
blocks and in the leftover, elsewhere in its tags only. `errorcount_` grows by the result and by
the wrong tags of both pages in whole blocks. The destination entry takes the pattern. -/
theorem crc_copy_page (sat : Sat) (stamps : Stamps) (mem : Mem) (dstpe srcpe : PageEntry) {p : Pattern}
    (hp : srcpe.pattern = some p) (hsrc : srcpe.memblock % 8 = 0)
    (hd : DisjointWords dstpe.memblock srcpe.memblock sat.pageWords) :
    ∃ r dst', copyEntry sat.crcCopyPage stamps mem dstpe srcpe = some (r, dst') ∧
      dst'.pattern = srcpe.pattern ∧
      r.errors = sat.pageErrors mem srcpe.memblock p ∧
      (r.errors = 0 → ∀ i < sat.pageWords, r.mem (dstpe.memblock + i) =
        if sat.tagMode = true ∧ i % 8 = 0 then addrToTag (dstpe.memblock + i)
        else mem (srcpe.memblock + i)) ∧
      (0 < r.errors → ∀ i < sat.pageWords, r.mem (dstpe.memblock + i) =
        sat.fillPage mem dstpe.memblock p (dstpe.memblock + i)) ∧
      (∀ b < sat.pageLength / 4096, sat.BlockDiffers mem srcpe.memblock p b → ∀ i < 512,
        r.mem (srcpe.memblock + (512 * b + i)) = sat.fillWord srcpe.memblock p (512 * b + i)) ∧
      (∀ i, 512 * (sat.pageLength / 4096) ≤ i → i < sat.pageWords →
        r.mem (srcpe.memblock + i) = sat.fillWord srcpe.memblock p i) ∧
      (∀ b < sat.pageLength / 4096, ¬ sat.BlockDiffers mem srcpe.memblock p b → ∀ i < 512,
        r.mem (srcpe.memblock + (512 * b + i)) =
          if sat.tagMode = true ∧ i % 8 = 0 then addrToTag (srcpe.memblock + (512 * b + i))
          else mem (srcpe.memblock + (512 * b + i))) ∧
      (∀ a, ¬ (srcpe.memblock ≤ a ∧ a < srcpe.memblock + sat.pageWords) →
        ¬ (dstpe.memblock ≤ a ∧ a < dstpe.memblock + sat.pageWords) → r.mem a = mem a) ∧
      r.errorcount = r.errors + ∑ b ∈ range (sat.pageLength / 4096),
        (sat.tagErrors mem (srcpe.memblock + 512 * b) 512 +
          sat.tagErrors mem (dstpe.memblock + 512 * b) 512) := by
  have hrun : sat.crcCopyPage mem dstpe.memblock srcpe.memblock p = _ :=
    copyPageWith_eq (copiesAny_copyBlock sat) (tagsLocal_copyTags sat) _ hsrc hd
  rw [copyEntry, hp, Option.map_some, hrun]
  unfold DisjointWords at hd
  refine ⟨_, _, rfl, rfl, rfl, ?_, ?_, ?_, ?_, ?_, ?_, rfl⟩
  · intro hzero i hi
    change sat.copiedMem _ _ _ _ _ = _
    rw [copiedMem, if_pos (by omega), if_pos hzero, targetWord, Nat.add_sub_cancel_left]
  · intro hpos i hi
    change sat.copiedMem _ _ _ _ _ = _
    rw [copiedMem, if_pos (by omega), if_neg (Nat.pos_iff_ne_zero.mp hpos), fillPage_eq,
      writeWords_apply hi, Nat.add_sub_cancel_left]
  · intro b hb hdiff i hi
    have hle := pageWords_blocks sat hb
    change sat.copiedMem _ _ _ _ _ = _
    rw [copiedMem, if_neg (by omega), if_pos (by omega), if_pos (by omega), Nat.add_sub_cancel_left,
      sourceWord, show (512 * b + i) / 512 = b by omega, if_pos hdiff]
  · intro i hle hi
    change sat.copiedMem _ _ _ _ _ = _
    rw [copiedMem, if_neg (by omega), if_pos (by omega), if_neg (by omega), Nat.add_sub_cancel_left]
  · intro b hb hsame i hi
    have hle := pageWords_blocks sat hb
    change sat.copiedMem _ _ _ _ _ = _
    rw [copiedMem, if_neg (by omega), if_pos (by omega), if_pos (by omega), Nat.add_sub_cancel_left,
      sourceWord, show (512 * b + i) / 512 = b by omega, if_neg hsame,
      show (512 * b + i) % 8 = i % 8 by omega]
  · intro a ha ha'
    change sat.copiedMem _ _ _ _ _ = _
    rw [copiedMem, if_neg ha', if_neg ha]

/-- **The warm copy agrees with the plain one**: the same result, memory and entry, and the same
growth of `errorcount_` but for the wrong tags of the destination in whole blocks. -/
theorem warm_copy_agrees (sat : Sat) (stamps : Stamps) (mem : Mem) (dstpe srcpe : PageEntry) {p : Pattern}
    (hp : srcpe.pattern = some p) (hsrc : srcpe.memblock % 8 = 0)
    (hd : DisjointWords dstpe.memblock srcpe.memblock sat.pageWords) :
    ∃ warm plain dst', copyEntry sat.crcWarmCopyPage stamps mem dstpe srcpe = some (warm, dst') ∧
      copyEntry sat.crcCopyPage stamps mem dstpe srcpe = some (plain, dst') ∧
      warm.errors = plain.errors ∧ warm.mem = plain.mem ∧
      plain.errorcount = warm.errorcount + ∑ b ∈ range (sat.pageLength / 4096),
        sat.tagErrors mem (dstpe.memblock + 512 * b) 512 := by
  have hplain : sat.crcCopyPage mem dstpe.memblock srcpe.memblock p = _ :=
    copyPageWith_eq (copiesAny_copyBlock sat) (tagsLocal_copyTags sat) _ hsrc hd
  have hwarm : sat.crcWarmCopyPage mem dstpe.memblock srcpe.memblock p = _ :=
    copyPageWith_eq (copiesAny_warmCopyBlock sat) (tagsLocal_warmTags sat) _ hsrc hd
  rw [copyEntry, copyEntry, hp, Option.map_some, Option.map_some, hplain, hwarm]
  refine ⟨_, _, _, rfl, rfl, rfl, rfl, ?_⟩
  simp only [copyTags, warmTags, sum_add_distrib]
  omega

/-- An entry at a byte address. -/
def entryAt (addr : Nat) (pattern : Option Pattern) : PageEntry :=
  ⟨0, some addr, 0, pattern, kInvalidTag, 0, 0, 0, -1, none⟩

/-- Pages of one block in tag mode. -/
def taggedBlock : Sat := { oneBlock with tagMode := true }

theorem disjoint_entries : DisjointWords (entryAt 4160 none).memblock (entryAt 64 (some .ones)).memblock
    taggedBlock.pageWords := by
  unfold DisjointWords
  decide

/-- Two pages next to each other, without a right word in the source. -/
theorem crc_copy_page_zeros :
    ∃ r dst', copyEntry taggedBlock.crcCopyPage ⟨0, -1, 0, -1⟩ (fun _ => 0) (entryAt 4160 none)
        (entryAt 64 (some .ones)) = some (r, dst') ∧
      dst'.pattern = some .ones ∧
      r.errors = taggedBlock.pageErrors (fun _ => 0) (entryAt 64 (some .ones)).memblock .ones := by
  obtain ⟨r, dst', hrun, hpattern, herrors, -⟩ := crc_copy_page taggedBlock ⟨0, -1, 0, -1⟩ (fun _ => 0)
    (entryAt 4160 none) (entryAt 64 (some .ones)) rfl (by decide) disjoint_entries
  exact ⟨r, dst', hrun, hpattern, herrors⟩

theorem warm_copy_agrees_zeros :
    ∃ warm plain dst', copyEntry taggedBlock.crcWarmCopyPage ⟨0, -1, 0, -1⟩ (fun _ => 0)
        (entryAt 4160 none) (entryAt 64 (some .ones)) = some (warm, dst') ∧
      copyEntry taggedBlock.crcCopyPage ⟨0, -1, 0, -1⟩ (fun _ => 0) (entryAt 4160 none)
        (entryAt 64 (some .ones)) = some (plain, dst') ∧
      warm.errors = plain.errors ∧ warm.mem = plain.mem := by
  obtain ⟨warm, plain, dst', hwarm, hplain, herrors, hmem, -⟩ := warm_copy_agrees taggedBlock
    ⟨0, -1, 0, -1⟩ (fun _ => 0) (entryAt 4160 none) (entryAt 64 (some .ones)) rfl (by decide)
    disjoint_entries
  exact ⟨warm, plain, dst', hwarm, hplain, herrors, hmem⟩

end StressAppTest.Sat
