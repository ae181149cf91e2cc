import StressAppTest.Memory.AnyContent
import StressAppTest.Memory.CheckRegion

/-!
# Fill, checksum and comparison agree

`FillPage` counts its words from the start of the page, `CheckRegion` from the start of a block,
`CalculateCrc` counts 32-bit units, and the checksums of tag mode put the pattern in place of
the tags. They produce the same data because every pattern repeats after 4096 bytes.

* `fill_check_agree`: a filled page has the checksum of its pattern in every block and no
  mismatch anywhere, whichever way it was filled.
* `checksum_mismatch_found`: in memory of any content, a block with a wrong checksum has a
  mismatch, so the branches for a checksum error without a miscompare are never taken.
-/

namespace StressAppTest

namespace Pattern

/-- One pass of the loop of `Pattern::CalculateCrc`: the unit number and the sums. -/
def crcPass (p : Pattern) (s : Nat × AdlerChecksum) : Nat × AdlerChecksum :=
  let i := s.1
  let sum := s.2.addFirst (p.pattern i)
  let i := i + 1
  let sum := sum.addFirst (p.pattern i)
  let i := i + 1
  let sum := sum.addSecond (p.pattern i)
  let i := i + 1
  let sum := sum.addSecond (p.pattern i)
  (i + 1, sum)

/-- `while (i < count)`, for as many passes as `fuel` allows. -/
def crcLoop (p : Pattern) (count : Nat) : Nat → Nat × AdlerChecksum → AdlerChecksum
  | 0, s => s.2
  | fuel + 1, s => if s.1 < count then p.crcLoop count fuel (p.crcPass s) else s.2

/-- `Pattern::CalculateCrc`; a pass is more than one step of the counter. -/
def calculateCrc (p : Pattern) : AdlerChecksum := p.crcLoop (4096 / 4) 1024 (0, AdlerChecksum.seed)

theorem crcLoop_eq (p : Pattern) {n g : Nat} (hg : g ≤ n) {fuel : Nat} (hfuel : n - g ≤ fuel) :
    p.crcLoop (4 * n) fuel (4 * g, AdlerChecksum.sum p.pattern g) = AdlerChecksum.sum p.pattern n := by
  induction fuel generalizing g with
  | zero =>
      obtain rfl : g = n := by omega
      rfl
  | succ fuel ih =>
      rw [crcLoop]
      split
      · next hlt =>
        have hpass : p.crcPass (4 * g, AdlerChecksum.sum p.pattern g) =
            (4 * (g + 1), AdlerChecksum.sum p.pattern (g + 1)) := rfl
        rw [hpass]
        exact ih (by omega) (by omega)
      · obtain rfl : g = n := by omega
        rfl

/-- The checksum of a pattern is what `CalculateCrc` computes. -/
theorem crc_eq_calculateCrc (p : Pattern) : p.crc = p.calculateCrc := by
  have hloop : p.crcLoop (4 * 256) 1024 (4 * 0, AdlerChecksum.sum p.pattern 0) =
      AdlerChecksum.sum p.pattern 256 := p.crcLoop_eq (by omega) (by omega)
  rw [p.crc_eq_sum, ← hloop]
  rfl

end Pattern

namespace Sat

/-! ## The branches of `FillPage` -/

/-- The default branch: upwards, with the pattern function that skips the offset. -/
def fillPageDefault (sat : Sat) (mem : Mem) (memwords : Nat) (p : Pattern) : Mem :=
  forUpTo sat.pageWords (fun i m =>
    Function.update m (memwords + i) (sat.fillData memwords p.patternUnshifted i)) mem

/-- The diagnostic branch, in the direction of the option. Yields write nothing. -/
def fillPageDiagnostic (sat : Sat) (mem : Mem) (memwords : Nat) (p : Pattern) : Mem :=
  forUpTo sat.pageWords (fun step m =>
    let i := sat.fillPlace step
    Function.update m (memwords + i) (sat.fillData memwords p.pattern i)) mem

theorem fillPage_branches (sat : Sat) (mem : Mem) (memwords : Nat) (p : Pattern) :
    sat.fillPage mem memwords p =
      if sat.fillDirection = .up ∧ sat.fillYieldBytes = 0 ∧ p.byteOffset = 0 then
        sat.fillPageDefault mem memwords p
      else sat.fillPageDiagnostic mem memwords p := rfl

theorem fillPageDiagnostic_eq (sat : Sat) (mem : Mem) (base : Nat) (p : Pattern) :
    sat.fillPageDiagnostic mem base p = writeWords mem base sat.pageWords (sat.fillWord base p) :=
  forUpTo_writeWords _ (fun _ h => fillPlace_lt h) (fun _ h => fillPlace_fillPlace h)

theorem fillPageDefault_eq (sat : Sat) (mem : Mem) (base : Nat) {p : Pattern} (hoff : p.byteOffset = 0) :
    sat.fillPageDefault mem base p = writeWords mem base sat.pageWords (sat.fillWord base p) := by
  have hword : p.wordOffset = 0 := by
    unfold Pattern.byteOffset at hoff
    omega
  have hpat : p.patternUnshifted = p.pattern := by
    funext i
    rw [Pattern.patternUnshifted, Pattern.pattern, hword]
  rw [fillPageDefault, hpat]
  exact forUpTo_writeWords id (fun _ h => h) (fun _ _ => rfl)

/-- The same settings with another way to fill. -/
def fillingBy (sat : Sat) (direction : FillDirection) (yieldBytes : Nat) : Sat :=
  { sat with fillDirection := direction, fillYieldBytes := yieldBytes }

/-- **Fill, checksum and slow check agree.** On a page at a 64-byte boundary the branches of
`FillPage` write the same memory, in both directions and with every yield interval. Each block
of that memory has the checksum that `CalculateCrc` computes, and `CheckRegion` finds no
mismatch in a block or in the leftover. -/
theorem fill_check_agree (sat : Sat) (p : Pattern) (mem : Mem) (line : Nat) :
    (∀ direction yieldBytes, (sat.fillingBy direction yieldBytes).fillPageDiagnostic mem (8 * line) p =
      sat.fillPage mem (8 * line) p) ∧
    (p.byteOffset = 0 → sat.fillPageDefault mem (8 * line) p = sat.fillPage mem (8 * line) p) ∧
    p.crc = p.calculateCrc ∧
    (∀ b < sat.pageLength / 4096,
      sat.blockCrc (sat.fillPage mem (8 * line) p) (8 * line + 512 * b) p =
        some ⟨sat.fillPage mem (8 * line) p, 0, p.calculateCrc⟩ ∧
      sat.checkRegion (sat.fillPage mem (8 * line) p) (8 * line + 512 * b) p 4096 0 =
        (sat.fillPage mem (8 * line) p, 0)) ∧
    sat.checkRegion (sat.fillPage mem (8 * line) p) (8 * line + 512 * (sat.pageLength / 4096)) p
      (sat.pageLength % 4096) 0 = (sat.fillPage mem (8 * line) p, 0) := by
  have hclean := sat.clean_fillPage mem (8 * line) p
  refine ⟨?_, ?_, p.crc_eq_calculateCrc, ?_, ?_⟩
  · intro direction yieldBytes
    rw [fillPageDiagnostic_eq, fillPage_eq]
    rfl
  · intro hoff
    rw [fillPageDefault_eq sat mem _ hoff, fillPage_eq]
  · intro b hb
    have hblock := hclean.block (pageWords_blocks sat hb)
    constructor
    · rw [blockCrc_clean hblock, p.crc_eq_calculateCrc]
    · rw [show 4096 = 8 * 512 by norm_num]
      exact checkRegion_clean (by omega) hblock
  · rw [pageLength_mod]
    exact checkRegion_clean (by omega) (hclean.block (by unfold pageWords; omega))

/-! ## A wrong checksum has a mismatch -/

variable {sat : Sat} {mem : Mem} {dst src : Nat} {p : Pattern}

/-- A block that is clean once its tags are repaired has the checksum of the pattern. -/
theorem sum_blockUnit_of_clean (h : sat.Clean (sat.repairTags mem src 512) src p 512) :
    AdlerChecksum.sum (sat.blockUnit mem src p) 256 = p.crc := by
  rw [p.crc_eq_sum]
  refine AdlerChecksum.sum_congr fun i hi => ?_
  unfold blockUnit
  split
  · next htag =>
    rw [crcUnit]
    split
    · rfl
    · next hmod =>
      -- not a tag: the word is as it was, and it is the pattern
      have hword : mem (src + i / 2) = datacast (p.pattern (2 * (i / 2))) (p.pattern (2 * (i / 2) + 1)) := by
        have hclean := h (i / 2) (by omega)
        rw [repairTags, if_pos htag, retag_of_not_tag (Or.inr hmod), fillWord, fillData] at hclean
        simpa [hmod] using hclean
      rw [StressAppTest.unitAt, hword]
      split
      · rw [low_datacast, show 2 * (i / 2) = i by omega]
      · rw [high_datacast, show 2 * (i / 2) + 1 = i by omega]
  · next htag =>
    rw [repairTags, if_neg htag] at h
    exact h.unitAt (by simpa using htag) (by omega)

/-- The region of one block. -/
def blockRegion (addr : Nat) (p : Pattern) (length : Nat) : Region :=
  ⟨addr, p, none, 0, length, 0, 0, -1, "unknown", "unknown", 0⟩

/-- No error means that the region holds the words of `FillPage`. -/
theorem clean_of_checkRegion {n : Nat} (hsrc : src % 8 = 0)
    (h : (sat.checkRegion mem src p (8 * n) 0).2 = 0) : sat.Clean mem src p n := by
  have heq := checkRegion_eq sat (blockRegion src p (8 * n)) mem
  have hlen : (sat.mismatches (blockRegion src p (8 * n)) mem).length = 0 := by
    rw [← h]
    exact (congrArg Prod.snd heq).symm
  intro i hi
  by_contra hne
  have hmem : i ∈ sat.mismatches (blockRegion src p (8 * n)) mem := by
    refine mem_mismatches.mpr ⟨?_, ?_⟩
    · change i < 8 * n / 8
      omega
    · change mem (src + i) ≠ sat.regionWord src p 0 i
      rwa [regionWord_eq_fillWord hsrc]
  rw [List.length_eq_zero_iff] at hlen
  rw [hlen] at hmem
  cases hmem

/-- **A wrong checksum is a wrong word.** -/
theorem checkRegion_pos (hsrc : src % 8 = 0) {mem' : Mem}
    (hmem : ∀ i < 512, mem' (src + i) = sat.repairTags mem src 512 (src + i))
    (hsum : AdlerChecksum.sum (sat.blockUnit mem src p) 256 ≠ p.crc) :
    1 ≤ (sat.checkRegion mem' src p 4096 0).2 := by
  by_contra hzero
  have hclean : sat.Clean mem' src p 512 := by
    refine clean_of_checkRegion hsrc ?_
    rw [show 8 * 512 = 4096 by norm_num]
    omega
  refine hsum (sum_blockUnit_of_clean ?_)
  exact hclean.congr fun i hi => (hmem i hi).symm

/-- The copy leaves the repaired source. -/
theorem copyTagged_src (hd : DisjointWords dst src 512) {i : Nat} (hi : i < 512) (m : Mem) :
    sat.copyTagged m dst src 512 (src + i) = m (src + i) := by
  unfold DisjointWords at hd
  unfold copyTagged
  split
  · rw [copyRetagged_apply, if_neg (by omega)]
  · rw [copyWords, if_neg (by omega)]

/-- A block copy or checksum ends with a wrong checksum, and the comparison finds nothing: the
condition of the branches that log "no miscompares found". -/
def NoMiscompares (sat : Sat) (p : Pattern) (src : Nat) (crc : Option AddrCrc) : Prop :=
  ∃ c, crc = some c ∧ c.sum ≠ p.crc ∧ (sat.checkRegion c.mem src p 4096 0).2 = 0

theorem not_noMiscompares_blockCrc (hsrc : src % 8 = 0) (mem : Mem) :
    ¬ sat.NoMiscompares p src (sat.blockCrc mem src p) := by
  rintro ⟨c, hc, hsum, hzero⟩
  rw [blockCrc_eq, Option.some.injEq] at hc
  subst hc
  have hpos : 1 ≤ (sat.checkRegion (sat.repairTags mem src 512) src p 4096 0).2 :=
    checkRegion_pos hsrc (fun _ _ => rfl) hsum
  exact absurd hzero (Nat.pos_iff_ne_zero.mp hpos)

theorem not_noMiscompares_copyBlock (hsrc : src % 8 = 0) (hd : DisjointWords dst src 512) (mem : Mem) :
    ¬ sat.NoMiscompares p src (sat.copyBlock mem dst src p) := by
  rintro ⟨c, hc, hsum, hzero⟩
  rw [copyBlock_eq sat hd, Option.some.injEq] at hc
  subst hc
  have hpos : 1 ≤ (sat.checkRegion (sat.copyTagged (sat.repairTags mem src 512) dst src 512) src p 4096 0).2 :=
    checkRegion_pos hsrc (fun i hi => copyTagged_src hd hi _) hsum
  exact absurd hzero (Nat.pos_iff_ne_zero.mp hpos)

theorem not_noMiscompares_warmCopyBlock (hsrc : src % 8 = 0) (hd : DisjointWords dst src 512) (mem : Mem) :
    ¬ sat.NoMiscompares p src (sat.warmCopyBlock mem dst src p) := by
  rintro ⟨c, hc, hsum, hzero⟩
  rw [warmCopyBlock_eq sat hd, Option.some.injEq] at hc
  subst hc
  have hpos : 1 ≤ (sat.checkRegion (sat.copyTagged (sat.repairTags mem src 512) dst src 512) src p 4096 0).2 :=
    checkRegion_pos hsrc (fun i hi => copyTagged_src hd hi _) hsum
  exact absurd hzero (Nat.pos_iff_ne_zero.mp hpos)

/-- A block that compares wrong never comes to the retry, nor to the marker. -/
theorem recheckBlock_eq {s : Checked} {marker : Word64} (h : (sat.checkRegion s.mem src p 4096 0).2 ≠ 0) :
    sat.recheckBlock marker dst src p s =
      ⟨(sat.checkRegion s.mem src p 4096 0).1, s.errors + (sat.checkRegion s.mem src p 4096 0).2,
        s.errorcount + (sat.checkRegion s.mem src p 4096 0).2⟩ := by
  simp only [recheckBlock]
  exact if_neg fun hzero => h hzero.1

/-- A block copy after which the comparison of a wrong checksum always finds something. -/
def FindsMiscompares (sat : Sat) (copy : Mem → Nat → Nat → Pattern → Option AddrCrc) : Prop :=
  ∀ {mem : Mem} {dst src : Nat} {p : Pattern}, src % 8 = 0 → DisjointWords dst src 512 →
    ¬ sat.NoMiscompares p src (copy mem dst src p)

/-- With such a copy, the result of a page copy does not depend on the marker. -/
theorem FindsMiscompares.copyPageWith_marker {copy : Mem → Nat → Nat → Pattern → Option AddrCrc}
    (hcopy : sat.FindsMiscompares copy) (hsrc : src % 8 = 0) (hd : DisjointWords dst src sat.pageWords)
    (marker marker' : Word64) (mem : Mem) :
    sat.copyPageWith copy marker mem dst src p = sat.copyPageWith copy marker' mem dst src p := by
  have hblocks : forUpTo (sat.pageLength / 4096) (sat.copyPageBlock copy marker dst src p) ⟨mem, 0, 0⟩ =
      forUpTo (sat.pageLength / 4096) (sat.copyPageBlock copy marker' dst src p) ⟨mem, 0, 0⟩ := by
    refine forUpTo_congr fun b hb s => ?_
    have hno : ¬ sat.NoMiscompares p (src + 512 * b) (copy s.mem (dst + 512 * b) (src + 512 * b) p) :=
      hcopy (by omega) (hd.block (pageWords_blocks sat hb))
    simp only [copyPageBlock]
    cases hc : copy s.mem (dst + 512 * b) (src + 512 * b) p with
    | none => rfl
    | some crc =>
        dsimp only
        split
        · rfl
        · next hsum =>
          have hpos : (sat.checkRegion crc.mem (src + 512 * b) p 4096 0).2 ≠ 0 :=
            fun hzero => hno ⟨crc, hc, hsum, hzero⟩
          let t : Checked := { s with mem := crc.mem, errorcount := s.errorcount + crc.errorcount }
          exact (recheckBlock_eq (s := t) hpos).trans (recheckBlock_eq (s := t) hpos).symm
  rw [copyPageWith, copyPageWith, hblocks]

/-- **A checksum mismatch is a word mismatch.** Whatever the memory holds, a block whose checksum
is not the one of the pattern has a mismatch. So at no block of `CrcCheckPage`, `CrcCopyPage` or
`CrcWarmCopyPage` the comparison after a wrong checksum finds nothing, and the markers that would
be written then do not matter. -/
theorem checksum_mismatch_found (sat : Sat) (p : Pattern) (mem : Mem) {dst line : Nat}
    (hd : DisjointWords dst (8 * line) sat.pageWords) :
    (∀ b < sat.pageLength / 4096, ∀ m crc, sat.blockCrc m (8 * line + 512 * b) p = some crc →
      crc.sum ≠ p.crc → 1 ≤ (sat.checkRegion crc.mem (8 * line + 512 * b) p 4096 0).2) ∧
    (∀ b < sat.pageLength / 4096, ∀ m crc,
      sat.copyBlock m (dst + 512 * b) (8 * line + 512 * b) p = some crc →
      crc.sum ≠ p.crc → 1 ≤ (sat.checkRegion crc.mem (8 * line + 512 * b) p 4096 0).2) ∧
    (∀ b < sat.pageLength / 4096, ∀ m crc,
      sat.warmCopyBlock m (dst + 512 * b) (8 * line + 512 * b) p = some crc →
      crc.sum ≠ p.crc → 1 ≤ (sat.checkRegion crc.mem (8 * line + 512 * b) p 4096 0).2) ∧
    (∀ b < sat.pageLength / 4096, ∀ s,
      s = forUpTo b (sat.crcCheckBlock (8 * line) p) ⟨mem, 0, 0⟩ →
        ¬ sat.NoMiscompares p (8 * line + 512 * b) (sat.blockCrc s.mem (8 * line + 512 * b) p)) ∧
    (∀ b < sat.pageLength / 4096, ∀ s marker,
      s = forUpTo b (sat.copyPageBlock sat.copyBlock marker dst (8 * line) p) ⟨mem, 0, 0⟩ →
        ¬ sat.NoMiscompares p (8 * line + 512 * b)
          (sat.copyBlock s.mem (dst + 512 * b) (8 * line + 512 * b) p)) ∧
    (∀ b < sat.pageLength / 4096, ∀ s marker,
      s = forUpTo b (sat.copyPageBlock sat.warmCopyBlock marker dst (8 * line) p) ⟨mem, 0, 0⟩ →
        ¬ sat.NoMiscompares p (8 * line + 512 * b)
          (sat.warmCopyBlock s.mem (dst + 512 * b) (8 * line + 512 * b) p)) ∧
    (∀ marker, sat.crcCopyPage mem dst (8 * line) p =
      sat.copyPageWith sat.copyBlock marker mem dst (8 * line) p) ∧
    ∀ marker, sat.crcWarmCopyPage mem dst (8 * line) p =
      sat.copyPageWith sat.warmCopyBlock marker mem dst (8 * line) p := by
  have hsrc (b : Nat) : (8 * line + 512 * b) % 8 = 0 := by omega
  have hdb {b : Nat} (hb : b < sat.pageLength / 4096) :
      DisjointWords (dst + 512 * b) (8 * line + 512 * b) 512 := hd.block (pageWords_blocks sat hb)
  have hone {crc : AddrCrc} {a : Nat} {c : Option AddrCrc} (hno : ¬ sat.NoMiscompares p a c)
      (hc : c = some crc) (hsum : crc.sum ≠ p.crc) : 1 ≤ (sat.checkRegion crc.mem a p 4096 0).2 :=
    Nat.pos_of_ne_zero fun hzero => hno ⟨crc, hc, hsum, hzero⟩
  refine ⟨?_, ?_, ?_, ?_, ?_, ?_, ?_, ?_⟩
  · intro b hb m crc
    exact hone (not_noMiscompares_blockCrc (hsrc b) m)
  · intro b hb m crc
    exact hone (not_noMiscompares_copyBlock (hsrc b) (hdb hb) m)
  · intro b hb m crc
    exact hone (not_noMiscompares_warmCopyBlock (hsrc b) (hdb hb) m)
  · intro b hb s _
    exact not_noMiscompares_blockCrc (hsrc b) s.mem
  · intro b hb s _ _
    exact not_noMiscompares_copyBlock (hsrc b) (hdb hb) s.mem
  · intro b hb s _ _
    exact not_noMiscompares_warmCopyBlock (hsrc b) (hdb hb) s.mem
  · intro marker
    have hfinds : sat.FindsMiscompares sat.copyBlock := fun h h' => not_noMiscompares_copyBlock h h' _
    exact hfinds.copyPageWith_marker (by omega) hd _ marker mem
  · intro marker
    have hfinds : sat.FindsMiscompares sat.warmCopyBlock := fun h h' =>
      not_noMiscompares_warmCopyBlock h h' _
    exact hfinds.copyPageWith_marker (by omega) hd _ marker mem

/-- A page of one block and the page after it. -/
theorem checksum_mismatch_found_oneBlock :
    DisjointWords 520 (8 * 1) oneBlock.pageWords ∧ ∀ m crc,
      oneBlock.blockCrc m 8 Pattern.ones = some crc → crc.sum ≠ Pattern.ones.crc →
        1 ≤ (oneBlock.checkRegion crc.mem 8 Pattern.ones 4096 0).2 := by
  have hd : DisjointWords 520 (8 * 1) oneBlock.pageWords := by
    unfold DisjointWords
    decide
  exact ⟨hd, (checksum_mismatch_found oneBlock Pattern.ones (fun _ => 0) hd).1 0 (by decide)⟩

end Sat

end StressAppTest
