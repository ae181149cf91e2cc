import StressAppTest.Memory.Copy

/-!
# Checksums and block copies of any memory

`Memory.Check` and `Memory.Copy` follow clean memory. Here the content is arbitrary. The
checksum loops of tag mode repair every tag they pass and add up the pattern in its place
(`crcUnit`), so a wrong tag is counted once and never changes a checksum.

* `adlerAddrCrcC_eq`, `adlerAddrMemcpyC_eq`, `adlerAddrMemcpyWarm_eq`: the memory, the error
  count and the checksum after each of the tagged loops.
* `blockCrc_eq`, `copyBlock_eq`, `warmCopyBlock_eq`: the same for one block in either mode. The
  two copies differ in the tags they count only.
-/

namespace StressAppTest.Sat

/-! ## Tags -/

/-- The tags of a region repaired. -/
def retag (mem : Mem) (base n : Nat) : Mem :=
  writeWords mem base n fun i => if i % 8 = 0 then addrToTag (base + i) else mem (base + i)

/-- The wrong tags of a region. -/
def badTags (mem : Mem) (base n : Nat) : Nat :=
  (List.range n).countP fun i => i % 8 == 0 && mem (base + i) != addrToTag (base + i)

/-- A copy of a region with its own tags. -/
def copyRetagged (mem : Mem) (dst src n : Nat) : Mem :=
  writeWords mem dst n fun i => if i % 8 = 0 then addrToTag (dst + i) else mem (src + i)

/-- The units that enter the checksum of a tagged region: the pattern stands for the tags. -/
def crcUnit (mem : Mem) (src : Nat) (p : Pattern) (i : Nat) : Word32 :=
  if i / 2 % 8 = 0 then p.pattern i else StressAppTest.unitAt mem src i

variable {sat : Sat} {mem : Mem} {dst src base n : Nat} {p : Pattern}

theorem retag_apply (mem : Mem) (base n a : Nat) :
    retag mem base n a =
      if base ≤ a ∧ a < base + n ∧ (a - base) % 8 = 0 then addrToTag a else mem a := by
  rw [retag, writeWords]
  by_cases hin : base ≤ a ∧ a < base + n
  · rw [if_pos hin, show base + (a - base) = a by omega]
    by_cases hmod : (a - base) % 8 = 0
    · rw [if_pos hmod, if_pos (by omega)]
    · rw [if_neg hmod, if_neg (by omega)]
  · rw [if_neg hin, if_neg (by omega)]

theorem copyRetagged_apply (mem : Mem) (dst src n a : Nat) :
    copyRetagged mem dst src n a =
      if dst ≤ a ∧ a < dst + n then
        if (a - dst) % 8 = 0 then addrToTag a else mem (src + (a - dst))
      else mem a := by
  rw [copyRetagged, writeWords]
  by_cases hin : dst ≤ a ∧ a < dst + n
  · rw [if_pos hin, if_pos hin, show dst + (a - dst) = a by omega]
  · rw [if_neg hin, if_neg hin]

theorem badTags_congr {mem' : Mem} (h : ∀ i < n, mem' (base + i) = mem (base + i)) :
    badTags mem' base n = badTags mem base n := by
  refine List.countP_congr fun i hi => ?_
  rw [h i (List.mem_range.mp hi)]

theorem retag_eq_tagAddrC (mem : Mem) (base n : Nat) : tagAddrC mem base (8 * n) = retag mem base n :=
  tagAddrC_eq mem base n

/-- Whether it is wrong or not, the word becomes its tag. -/
theorem checkTag_eq (mem : Mem) (a : Nat) :
    checkTag mem a =
      (Function.update mem a (addrToTag a), if mem a ≠ addrToTag a then 1 else 0) := by
  unfold checkTag
  split
  · rfl
  · next h =>
    have h' : mem a = addrToTag a := by simpa using h
    rw [← h', Function.update_eq_self]

/-- One more pair of words, the first of which may be a tag. -/
theorem badTags_pair (mem : Mem) (base g : Nat) :
    badTags mem base (2 * (g + 1)) = badTags mem base (2 * g) +
      if 2 * g % 8 = 0 ∧ mem (base + 2 * g) ≠ addrToTag (base + 2 * g) then 1 else 0 := by
  have hodd : ¬ (2 * g + 1) % 8 = 0 := by omega
  rw [badTags, show 2 * (g + 1) = 2 * g + 1 + 1 by ring, List.range_succ, List.range_succ,
    List.countP_append, List.countP_append]
  simp [List.countP_singleton, hodd, badTags]

theorem retag_zero (mem : Mem) (base : Nat) : retag mem base 0 = mem := writeWords_zero mem base _

theorem copyRetagged_zero (mem : Mem) (dst src : Nat) : copyRetagged mem dst src 0 = mem :=
  writeWords_zero mem dst _

/-! ## `AdlerAddrCrcC` -/

/-- One pass over the units that enter the checksum. -/
theorem pass_crcUnit (mem : Mem) (src : Nat) (p : Pattern) (g : Nat) (s : AdlerChecksum)
    {first : Word64} (hfirst : first = if 2 * g % 8 = 0 then
      datacast (p.pattern (2 * (2 * g))) (p.pattern (2 * (2 * g) + 1)) else mem (src + 2 * g)) :
    s.group (low first) (high first) (low (mem (src + (2 * g + 1)))) (high (mem (src + (2 * g + 1)))) =
      AdlerChecksum.pass (crcUnit mem src p) g s := by
  have h0 : 4 * g / 2 = 2 * g := by omega
  have h1 : (4 * g + 1) / 2 = 2 * g := by omega
  have h2 : (4 * g + 2) / 2 = 2 * g + 1 := by omega
  have h3 : (4 * g + 3) / 2 = 2 * g + 1 := by omega
  have hodd : ¬ (2 * g + 1) % 8 = 0 := by omega
  simp only [AdlerChecksum.pass, crcUnit, StressAppTest.unitAt, h0, h1, h2, h3, if_neg hodd]
  rw [if_pos (by omega : (4 * g) % 2 = 0), if_neg (by omega : ¬ (4 * g + 1) % 2 = 0),
    if_pos (by omega : (4 * g + 2) % 2 = 0), if_neg (by omega : ¬ (4 * g + 3) % 2 = 0)]
  by_cases hmod : 2 * g % 8 = 0
  · rw [hfirst, if_pos hmod, if_pos hmod, if_pos hmod, low_datacast, high_datacast,
      show 2 * (2 * g) = 4 * g by ring]
  · rw [hfirst, if_neg hmod, if_neg hmod, if_neg hmod]

theorem retag_pair (mem : Mem) (base g : Nat) :
    retag mem base (2 * (g + 1)) = if 2 * g % 8 = 0 then
      Function.update (retag mem base (2 * g)) (base + 2 * g) (addrToTag (base + 2 * g))
    else retag mem base (2 * g) := by
  funext a
  by_cases hmod : 2 * g % 8 = 0
  · rw [if_pos hmod]
    by_cases ha : a = base + 2 * g
    · subst ha
      rw [Function.update_self, retag_apply, if_pos (by omega)]
    · rw [Function.update_of_ne ha, retag_apply, retag_apply]
      exact if_congr (by omega) rfl rfl
  · rw [if_neg hmod, retag_apply, retag_apply]
    exact if_congr (by omega) rfl rfl

/-- A word that the loop has not reached, or that is no tag. -/
theorem retag_of_not_tag {i : Nat} (h : n ≤ i ∨ ¬ i % 8 = 0) : retag mem base n (base + i) = mem (base + i) := by
  rw [retag_apply, if_neg (by omega)]

theorem adlerAddrCrcC_eq (hn : 2 * n ≤ 2 ^ 19) :
    adlerAddrCrcC mem src (16 * n) p =
      some ⟨retag mem src (2 * n), badTags mem src (2 * n), AdlerChecksum.sum (crcUnit mem src p) n⟩ := by
  have hcount := adlerCount_eq hn
  rw [adlerAddrCrcC, hcount, Option.map_some, show (2 * n + 1) / 2 = n by omega, Option.some.injEq]
  refine forUpTo_inv (fun g (s : AddrCrc) => s =
    ⟨retag mem src (2 * g), badTags mem src (2 * g), AdlerChecksum.sum (crcUnit mem src p) g⟩) ?_ ?_
  · rw [Nat.mul_zero, retag_zero]
    rfl
  · rintro g hg s rfl
    have hfirst : retag mem src (2 * g) (src + 2 * g) = mem (src + 2 * g) :=
      retag_of_not_tag (Or.inl (Nat.le_refl _))
    have hsecond : retag mem src (2 * g) (src + (2 * g + 1)) = mem (src + (2 * g + 1)) :=
      retag_of_not_tag (Or.inl (by omega))
    simp only [addrCrcPass, checkTag_eq, badTags_pair, retag_pair]
    by_cases hmod : 2 * g % 8 = 0
    · have hload : Function.update (retag mem src (2 * g)) (src + 2 * g) (addrToTag (src + 2 * g))
          (src + (2 * g + 1)) = mem (src + (2 * g + 1)) := by
        rw [Function.update_of_ne (by omega), hsecond]
      simp only [hmod, if_true, true_and, hfirst, hload, AddrCrc.mk.injEq]
      exact pass_crcUnit mem src p g _ (if_pos hmod).symm
    · simp only [hmod, false_and, if_false, hfirst, hsecond, Nat.add_zero, AddrCrc.mk.injEq, true_and]
      exact pass_crcUnit mem src p g _ (if_neg hmod).symm

/-! ## Tagged copies -/

/-- Both tags become right and the destination gets its own. -/
theorem copyTag_eq (dst src i : Nat) (p : Pattern) (s : AddrCrc) :
    copyTag dst src i p s =
      ⟨Function.update (Function.update s.mem (src + i) (addrToTag (src + i))) (dst + i)
          (addrToTag (dst + i)),
        s.errorcount + (if s.mem (src + i) ≠ addrToTag (src + i) then 1 else 0) +
          (if s.mem (dst + i) ≠ addrToTag (dst + i) then 1 else 0),
        (s.sum.addFirst (p.pattern (2 * i))).addFirst (p.pattern (2 * i + 1))⟩ := by
  simp only [copyTag, checkTag_eq]
  split
  · simp only [Function.update_idem]
  · rfl

/-- The two words of a pass of the tagged copy. -/
theorem copyRetagged_pair (hd : DisjointWords dst src (2 * n)) {g : Nat} (hg : g < n) :
    copyRetagged (retag mem src (2 * (g + 1))) dst src (2 * (g + 1)) =
      Function.update (Function.update
        (if 2 * g % 8 = 0 then
          Function.update (copyRetagged (retag mem src (2 * g)) dst src (2 * g)) (src + 2 * g)
            (addrToTag (src + 2 * g))
        else copyRetagged (retag mem src (2 * g)) dst src (2 * g))
        (dst + 2 * g) (if 2 * g % 8 = 0 then addrToTag (dst + 2 * g) else mem (src + 2 * g)))
        (dst + (2 * g + 1)) (mem (src + (2 * g + 1))) := by
  unfold DisjointWords at hd
  funext a
  by_cases h1 : a = dst + (2 * g + 1)
  · subst h1
    rw [Function.update_self, copyRetagged_apply, if_pos (by omega), if_neg (by omega), retag_apply,
      if_neg (by omega)]
    congr 1
    omega
  · rw [Function.update_of_ne h1]
    by_cases h0 : a = dst + 2 * g
    · subst h0
      rw [Function.update_self, copyRetagged_apply, if_pos (by omega), Nat.add_sub_cancel_left]
      by_cases hmod : 2 * g % 8 = 0
      · rw [if_pos hmod, if_pos hmod]
      · rw [if_neg hmod, if_neg hmod, retag_of_not_tag (Or.inr hmod)]
    · rw [Function.update_of_ne h0]
      by_cases hin : dst ≤ a ∧ a < dst + 2 * g
      · -- copied before
        have hcopied : copyRetagged (retag mem src (2 * (g + 1))) dst src (2 * (g + 1)) a =
            copyRetagged (retag mem src (2 * g)) dst src (2 * g) a := by
          rw [copyRetagged_apply, copyRetagged_apply, if_pos (by omega), if_pos hin, retag_apply,
            retag_apply]
          exact if_congr Iff.rfl rfl (if_congr (by omega) rfl rfl)
        rw [hcopied]
        split
        · rw [Function.update_of_ne (by omega)]
        · rfl
      · -- outside the destination only the tag of the source changes
        have hsrc (m : Mem) (k : Nat) (hk : k ≤ 2 * (g + 1)) :
            copyRetagged m dst src k a = m a := by
          rw [copyRetagged_apply, if_neg (by omega)]
        rw [hsrc _ _ (Nat.le_refl _), retag_pair]
        split
        · by_cases ha : a = src + 2 * g
          · subst ha
            rw [Function.update_self, Function.update_self]
          · rw [Function.update_of_ne ha, Function.update_of_ne ha, hsrc _ _ (by omega)]
        · rw [hsrc _ _ (by omega)]

theorem adlerAddrMemcpyC_eq (hd : DisjointWords dst src (2 * n)) (hn : 2 * n ≤ 2 ^ 19) :
    adlerAddrMemcpyC mem dst src (16 * n) p =
      some ⟨copyRetagged (retag mem src (2 * n)) dst src (2 * n),
        badTags mem src (2 * n) + badTags mem dst (2 * n),
        AdlerChecksum.sum (crcUnit mem src p) n⟩ := by
  have hcount := adlerCount_eq hn
  rw [adlerAddrMemcpyC, hcount, Option.map_some, show (2 * n + 1) / 2 = n by omega, Option.some.injEq]
  refine forUpTo_inv (fun g (s : AddrCrc) => s =
    ⟨copyRetagged (retag mem src (2 * g)) dst src (2 * g),
      badTags mem src (2 * g) + badTags mem dst (2 * g),
      AdlerChecksum.sum (crcUnit mem src p) g⟩) ?_ ?_
  · rw [Nat.mul_zero, retag_zero, copyRetagged_zero]
    rfl
  · rintro g hg s rfl
    have hd' := hd
    unfold DisjointWords at hd
    let m := copyRetagged (retag mem src (2 * g)) dst src (2 * g)
    -- neither word of the pass has been written yet
    have hsrc {i : Nat} (hi : 2 * g ≤ i) (hlt : i < 2 * n) : m (src + i) = mem (src + i) := by
      rw [show m (src + i) = retag mem src (2 * g) (src + i) by
        simp only [m, copyRetagged_apply, if_neg (show ¬ (dst ≤ src + i ∧ src + i < dst + 2 * g) by omega)]]
      exact retag_of_not_tag (Or.inl hi)
    have hdst : m (dst + 2 * g) = mem (dst + 2 * g) := by
      simp only [m, copyRetagged_apply]
      rw [if_neg (by omega), retag_apply, if_neg (by omega)]
    rw [copyRetagged_pair hd' hg, badTags_pair, badTags_pair]
    change addrMemcpyPass dst src p g ⟨m, _, _⟩ = _
    simp only [addrMemcpyPass, copySecond, copyTag_eq, copyFirst]
    by_cases hmod : 2 * g % 8 = 0
    · have hload : Function.update (Function.update m (src + 2 * g) (addrToTag (src + 2 * g)))
          (dst + 2 * g) (addrToTag (dst + 2 * g)) (src + (2 * g + 1)) = mem (src + (2 * g + 1)) := by
        rw [Function.update_of_ne (by omega), Function.update_of_ne (by omega), hsrc (by omega) (by omega)]
      simp only [hmod, if_true, true_and, hsrc (Nat.le_refl _) (by omega : 2 * g < 2 * n), hdst, hload,
        AddrCrc.mk.injEq]
      refine ⟨rfl, by omega, ?_⟩
      have hpass := pass_crcUnit mem src p g (AdlerChecksum.sum (crcUnit mem src p) g) (if_pos hmod).symm
      simp only [low_datacast, high_datacast] at hpass
      exact hpass
    · have hload : Function.update m (dst + 2 * g) (mem (src + 2 * g)) (src + (2 * g + 1)) =
          mem (src + (2 * g + 1)) := by
        rw [Function.update_of_ne (by omega), hsrc (by omega) (by omega)]
      simp only [hmod, false_and, if_false, hsrc (Nat.le_refl _) (by omega : 2 * g < 2 * n), hload,
        Nat.add_zero, AddrCrc.mk.injEq, true_and]
      exact ⟨rfl, pass_crcUnit mem src p g _ (if_neg hmod).symm⟩

/-- The raw copy is retagged last; the source is repaired in between. -/
theorem retag_retag_copyWords (mem : Mem) (hd : DisjointWords dst src n) :
    retag (retag (copyWords mem dst src n) src n) dst n =
      copyRetagged (retag mem src n) dst src n := by
  unfold DisjointWords at hd
  funext a
  rw [retag_apply, retag_apply, copyRetagged_apply, retag_apply]
  by_cases hin : dst ≤ a ∧ a < dst + n
  · rw [if_pos hin]
    by_cases hmod : (a - dst) % 8 = 0
    · rw [if_pos (by omega), if_pos hmod]
    · rw [if_neg (by omega), if_neg (by omega), if_neg hmod, if_neg (by omega), copyWords, if_pos hin]
  · rw [if_neg (by omega), if_neg hin, copyWords, if_neg hin, retag_apply]

theorem adlerAddrMemcpyWarm_eq (sat : Sat) (hd : DisjointWords dst src 512) :
    sat.adlerAddrMemcpyWarm mem dst src 4096 p =
      some ⟨copyRetagged (retag mem src 512) dst src 512, badTags mem src 512,
        AdlerChecksum.sum (crcUnit mem src p) 256⟩ := by
  have hread : ∀ i < 512, copyWords mem dst src 512 (src + i) = mem (src + i) := by
    intro i hi
    rw [copyWords_eq_writeWords]
    exact writeWords_disjoint hd (Nat.le_refl _) hi
  have hsum : AdlerChecksum.sum (crcUnit (copyWords mem dst src 512) src p) 256 =
      AdlerChecksum.sum (crcUnit mem src p) 256 := by
    refine AdlerChecksum.sum_congr fun i hi => ?_
    rw [crcUnit, crcUnit, StressAppTest.unitAt, StressAppTest.unitAt, hread _ (by omega)]
  have hcrc : adlerAddrCrcC (copyWords mem dst src 512) src 4096 p =
      some ⟨retag (copyWords mem dst src 512) src 512, badTags mem src 512,
        AdlerChecksum.sum (crcUnit mem src p) 256⟩ := by
    rw [← badTags_congr hread, ← hsum]
    exact adlerAddrCrcC_eq (n := 256) (by norm_num)
  have htag := retag_eq_tagAddrC (retag (copyWords mem dst src 512) src 512) dst 512
  simp only [adlerAddrMemcpyWarm, osAdlerMemcpyWarm_eq _ hd, hcrc, Option.bind_eq_bind,
    Option.bind_some, Option.pure_def, Option.some.injEq, AddrCrc.mk.injEq, and_true]
  rw [show 4096 = 8 * 512 by norm_num, htag, retag_retag_copyWords mem hd]

/-! ## Blocks in either mode -/

/-- The region after the check of its tags. -/
def repairTags (sat : Sat) (mem : Mem) (base n : Nat) : Mem :=
  if sat.tagMode then retag mem base n else mem

/-- What the check of its tags adds to `errorcount_`. -/
def tagErrors (sat : Sat) (mem : Mem) (base n : Nat) : Nat :=
  if sat.tagMode then badTags mem base n else 0

/-- The units that enter the checksum. -/
def blockUnit (sat : Sat) (mem : Mem) (src : Nat) (p : Pattern) : Nat → Word32 :=
  if sat.tagMode then crcUnit mem src p else StressAppTest.unitAt mem src

/-- A copy, with tags of its own in tag mode. -/
def copyTagged (sat : Sat) (mem : Mem) (dst src n : Nat) : Mem :=
  if sat.tagMode then copyRetagged mem dst src n else copyWords mem dst src n

theorem blockCrc_eq (sat : Sat) (mem : Mem) (src : Nat) (p : Pattern) :
    sat.blockCrc mem src p = some ⟨sat.repairTags mem src 512, sat.tagErrors mem src 512,
      AdlerChecksum.sum (sat.blockUnit mem src p) 256⟩ := by
  unfold blockCrc repairTags tagErrors blockUnit
  split
  · exact adlerAddrCrcC_eq (n := 256) (by norm_num)
  · have hcount : adlerCount 4096 = some 512 := by decide
    rw [calculateAdlerChecksum_eq hcount]
    rfl

theorem copyBlock_eq (sat : Sat) (hd : DisjointWords dst src 512) :
    sat.copyBlock mem dst src p =
      some ⟨sat.copyTagged (sat.repairTags mem src 512) dst src 512,
        sat.tagErrors mem src 512 + sat.tagErrors mem dst 512,
        AdlerChecksum.sum (sat.blockUnit mem src p) 256⟩ := by
  unfold copyBlock copyTagged repairTags tagErrors blockUnit
  split
  · exact adlerAddrMemcpyC_eq (n := 256) hd (by norm_num)
  · rw [adlerMemcpyC_eq (n := 256) (by decide) hd]
    rfl

/-- The warm copy does not look at the tags of the destination. -/
theorem warmCopyBlock_eq (sat : Sat) (hd : DisjointWords dst src 512) :
    sat.warmCopyBlock mem dst src p =
      some ⟨sat.copyTagged (sat.repairTags mem src 512) dst src 512, sat.tagErrors mem src 512,
        AdlerChecksum.sum (sat.blockUnit mem src p) 256⟩ := by
  unfold warmCopyBlock copyTagged repairTags tagErrors blockUnit
  split
  · exact adlerAddrMemcpyWarm_eq sat hd
  · rw [osAdlerMemcpyWarm_eq _ hd]
    rfl

end StressAppTest.Sat
