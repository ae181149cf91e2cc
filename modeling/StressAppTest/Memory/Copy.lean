import StressAppTest.Memory.Check

/-!
# Copying a page (`CrcCopyPage`, `CrcWarmCopyPage` and the `-F` copy of `worker.cc`)

Each way to copy a page copies its blocks with a checksum of the source, repairs what is wrong
and fills the destination if anything was. In tag mode the tags of the source are checked and
the destination gets tags of its own.

* `crcCopyPage_clean`, `crcWarmCopyPage_clean`, `memcpyPage_clean`: from a clean source every
  way to copy writes exactly the words of `FillPage` on the destination, and counts no error.
-/

namespace StressAppTest

/-- Two runs that follow each other are one. -/
theorem writeWords_append {mem : Mem} {base m n : Nat} {f g : Nat → Word64}
    (h : ∀ i < n, g i = f (m + i)) :
    writeWords (writeWords mem base m f) (base + m) n g = writeWords mem base (m + n) f := by
  funext a
  simp only [writeWords]
  by_cases h1 : base + m ≤ a ∧ a < base + m + n
  · rw [if_pos h1, if_pos (by omega), h _ (by omega)]
    congr 1
    omega
  · rw [if_neg h1]
    by_cases h2 : base ≤ a ∧ a < base + m
    · rw [if_pos h2, if_pos (by omega)]
    · rw [if_neg h2, if_neg (by omega)]

theorem copyWords_eq_writeWords (mem : Mem) (dst src n : Nat) :
    copyWords mem dst src n = writeWords mem dst n fun i => mem (src + i) := rfl

theorem writeWords_congr {mem : Mem} {base n : Nat} {f g : Nat → Word64} (h : ∀ i < n, f i = g i) :
    writeWords mem base n f = writeWords mem base n g := by
  funext a
  simp only [writeWords]
  split
  · exact h _ (by omega)
  · rfl

/-- A run of writes does not reach a disjoint region. -/
theorem writeWords_disjoint {mem : Mem} {dst src n i : Nat} {f : Nat → Word64} {m : Nat}
    (hd : DisjointWords dst src n) (hm : m ≤ n) (hi : i < n) :
    writeWords mem dst m f (src + i) = mem (src + i) := by
  unfold DisjointWords at hd
  exact writeWords_of_notMem (by omega)

/-- Two writes that extend a written run. -/
theorem update_update_writeWords {mem : Mem} {dst g : Nat} {f : Nat → Word64} {x y : Word64}
    (hx : x = f (2 * g)) (hy : y = f (2 * g + 1)) :
    Function.update (Function.update (writeWords mem dst (2 * g) f) (dst + 2 * g) x)
      (dst + (2 * g + 1)) y = writeWords mem dst (2 * (g + 1)) f := by
  subst hx hy
  funext a
  by_cases h1 : a = dst + (2 * g + 1)
  · subst h1
    rw [Function.update_self, writeWords_apply (by omega)]
  · rw [Function.update_of_ne h1]
    by_cases h0 : a = dst + 2 * g
    · subst h0
      rw [Function.update_self, writeWords_apply (by omega)]
    · rw [Function.update_of_ne h0, writeWords, writeWords]
      by_cases h : dst ≤ a ∧ a < dst + 2 * g
      · rw [if_pos h, if_pos (by omega)]
      · rw [if_neg h, if_neg (by omega)]

theorem DisjointWords.block {dst src n b m : Nat} (h : DisjointWords dst src n) (hb : b + m ≤ n) :
    DisjointWords (dst + b) (src + b) m := by
  unfold DisjointWords at h ⊢
  omega

namespace Sat

/-- `WorkerThread::TagAddrC`: every eighth word is retagged. -/
def tagAddrC (mem : Mem) (memwords sizeInBytes : Nat) : Mem :=
  forUpTo ((sizeInBytes / 8 + 7) / 8) (fun k m =>
    Function.update m (memwords + 8 * k) (addrToTag (memwords + 8 * k))) mem

theorem tagAddrC_eq (mem : Mem) (base n : Nat) :
    tagAddrC mem base (8 * n) = writeWords mem base n fun i =>
      if i % 8 = 0 then addrToTag (base + i) else mem (base + i) := by
  rw [tagAddrC, show (8 * n / 8 + 7) / 8 = (n + 7) / 8 by omega]
  have hloop : ∀ k ≤ (n + 7) / 8, forUpTo k (fun k m =>
      Function.update m (base + 8 * k) (addrToTag (base + 8 * k))) mem =
        fun a => if base ≤ a ∧ a < base + 8 * k ∧ (a - base) % 8 = 0 then addrToTag a else mem a := by
    intro k hk
    induction k with
    | zero =>
        funext a
        rw [if_neg (by omega)]
        rfl
    | succ k ih =>
        funext a
        rw [forUpTo, ih (by omega)]
        by_cases ha : a = base + 8 * k
        · subst ha
          rw [Function.update_self, if_pos (by omega)]
        · rw [Function.update_of_ne ha]
          by_cases h : base ≤ a ∧ a < base + 8 * k ∧ (a - base) % 8 = 0
          · rw [if_pos h, if_pos (by omega)]
          · rw [if_neg h, if_neg (by omega)]
  rw [hloop _ (Nat.le_refl _)]
  funext a
  rw [writeWords]
  by_cases hin : base ≤ a ∧ a < base + n
  · rw [if_pos hin]
    by_cases hmod : (a - base) % 8 = 0
    · rw [if_pos (by omega), if_pos hmod, show base + (a - base) = a by omega]
    · rw [if_neg (by omega), if_neg hmod, show base + (a - base) = a by omega]
  · rw [if_neg (by omega), if_neg hin]

/-! ## Copies of one block -/

/-- The first word of a pass of `AdlerAddrMemcpyC`, a tag: both tags are checked, the pattern
enters the checksum and the destination gets its tag. -/
def copyTag (dst src i : Nat) (p : Pattern) (s : AddrCrc) : AddrCrc :=
  let first := checkTag s.mem (src + i)
  -- the destination word was loaded before the source was repaired
  let second : Mem × Nat :=
    if s.mem (dst + i) ≠ addrToTag (dst + i) then
      (Function.update first.1 (dst + i) (addrToTag (dst + i)), 1)
    else (first.1, 0)
  ⟨Function.update second.1 (dst + i) (addrToTag (dst + i)), s.errorcount + first.2 + second.2,
    (s.sum.addFirst (p.pattern (2 * i))).addFirst (p.pattern (2 * i + 1))⟩

/-- The first word of a pass, data. -/
def copyFirst (dst src i : Nat) (s : AddrCrc) : AddrCrc :=
  let data := s.mem (src + i)
  ⟨Function.update s.mem (dst + i) data, s.errorcount, (s.sum.addFirst (low data)).addFirst (high data)⟩

/-- The second word of a pass. -/
def copySecond (dst src i : Nat) (s : AddrCrc) : AddrCrc :=
  let data := s.mem (src + i)
  ⟨Function.update s.mem (dst + i) data, s.errorcount,
    (s.sum.addSecond (low data)).addSecond (high data)⟩

def addrMemcpyPass (dst src : Nat) (p : Pattern) (g : Nat) (s : AddrCrc) : AddrCrc :=
  let i := 2 * g
  copySecond dst src (i + 1) (if i % 8 = 0 then copyTag dst src i p s else copyFirst dst src i s)

/-- `WorkerThread::AdlerAddrMemcpyC` -/
def adlerAddrMemcpyC (mem : Mem) (dstmem64 srcmem64 sizeInBytes : Nat) (p : Pattern) :
    Option AddrCrc :=
  (adlerCount sizeInBytes).map fun count =>
    forUpTo ((count + 1) / 2) (addrMemcpyPass dstmem64 srcmem64 p) ⟨mem, 0, AdlerChecksum.seed⟩

/-- `WorkerThread::AdlerAddrMemcpyWarm`: copied untagged, checked, then retagged. -/
def adlerAddrMemcpyWarm (sat : Sat) (mem : Mem) (dstmem64 srcmem64 sizeInBytes : Nat) (p : Pattern) :
    Option AddrCrc := do
  let copied ← osAdlerMemcpyWarm sat.vector mem dstmem64 srcmem64 sizeInBytes
  let crc ← adlerAddrCrcC copied.1 srcmem64 sizeInBytes p
  return { crc with mem := tagAddrC crc.mem dstmem64 sizeInBytes }

/-- The block copy of `CrcCopyPage`. -/
def copyBlock (sat : Sat) (mem : Mem) (targetmem sourcemem : Nat) (p : Pattern) : Option AddrCrc :=
  if sat.tagMode then adlerAddrMemcpyC mem targetmem sourcemem 4096 p
  else (adlerMemcpyC mem targetmem sourcemem 4096).map fun r => ⟨r.1, 0, r.2⟩

/-- The block copy of `CrcWarmCopyPage`. -/
def warmCopyBlock (sat : Sat) (mem : Mem) (targetmem sourcemem : Nat) (p : Pattern) :
    Option AddrCrc :=
  if sat.tagMode then sat.adlerAddrMemcpyWarm mem targetmem sourcemem 4096 p
  else (osAdlerMemcpyWarm sat.vector mem targetmem sourcemem 4096).map fun r => ⟨r.1, 0, r.2⟩

/-! ## Copies of a page -/

/-- A block whose checksum was wrong: the source is compared; if it compares right, the copy
made of it is written back and compared once more, and if that is right too, one error is
reported on its first word, which gets the value `marker`. -/
def recheckBlock (sat : Sat) (marker : Word64) (targetmem sourcemem : Nat) (p : Pattern)
    (s : Checked) : Checked :=
  let region := sat.checkRegion s.mem sourcemem p 4096 0
  if region.2 = 0 ∧ sat.tagMode = false then
    let again := sat.checkRegion (copyWords region.1 sourcemem targetmem 512) sourcemem p 4096 0
    if again.2 = 0 then
      ⟨Function.update again.1 sourcemem marker, s.errors + 1, s.errorcount + 1⟩
    else ⟨again.1, s.errors + again.2, s.errorcount + again.2⟩
  else ⟨region.1, s.errors + region.2, s.errorcount + region.2⟩

/-- One block of a page copy with the block copy `copy`. -/
def copyPageBlock (sat : Sat) (copy : Mem → Nat → Nat → Pattern → Option AddrCrc) (marker : Word64)
    (dst src : Nat) (p : Pattern) (currentblock : Nat) (s : Checked) : Checked :=
  let targetmem := dst + 512 * currentblock
  let sourcemem := src + 512 * currentblock
  match copy s.mem targetmem sourcemem p with
  | none => s
  | some crc =>
    let s := { s with mem := crc.mem, errorcount := s.errorcount + crc.errorcount }
    if crc.sum = p.crc then s else sat.recheckBlock marker targetmem sourcemem p s

/-- The part of a page that is shorter than a block: compared, copied and retagged. -/
def copyLeftovers (sat : Sat) (dst src : Nat) (p : Pattern) (s : Checked) : Checked :=
  if sat.pageLength % 4096 = 0 then s
  else
    let targetmem := dst + 512 * (sat.pageLength / 4096)
    let sourcemem := src + 512 * (sat.pageLength / 4096)
    let leftovers := sat.pageLength % 4096
    let region := sat.checkRegion s.mem sourcemem p leftovers 0
    let copied := copyWords region.1 targetmem sourcemem (leftovers / 8)
    ⟨if sat.tagMode then tagAddrC copied targetmem leftovers else copied,
      s.errors + region.2, s.errorcount + region.2⟩

/-- The common body of `CrcCopyPage` and `CrcWarmCopyPage`. -/
def copyPageWith (sat : Sat) (copy : Mem → Nat → Nat → Pattern → Option AddrCrc) (marker : Word64)
    (mem : Mem) (dst src : Nat) (p : Pattern) : Checked :=
  let s := sat.copyLeftovers dst src p
    (forUpTo (sat.pageLength / 4096) (sat.copyPageBlock copy marker dst src p) ⟨mem, 0, 0⟩)
  if s.errors ≠ 0 then { s with mem := sat.fillPage s.mem dst p } else s

/-- `WorkerThread::CrcCopyPage` -/
def crcCopyPage (sat : Sat) : Mem → Nat → Nat → Pattern → Checked :=
  sat.copyPageWith sat.copyBlock (0xbad00000#64 <<< 32)

/-- `WorkerThread::CrcWarmCopyPage` -/
def crcWarmCopyPage (sat : Sat) : Mem → Nat → Nat → Pattern → Checked :=
  sat.copyPageWith sat.warmCopyBlock 0xbad

/-- The `-F` copy of `CopyThread::Work`: `memcpy` and new tags. -/
def memcpyPage (sat : Sat) (mem : Mem) (dst src : Nat) : Mem :=
  let copied := copyWords mem dst src sat.pageWords
  if sat.tagMode then tagAddrC copied dst sat.pageLength else copied

/-! ## Copies of clean memory -/

variable {sat : Sat} {mem : Mem} {dst src : Nat} {p : Pattern} {n : Nat}

/-- Without tags, clean words are the same at every place. -/
theorem copyWords_clean (htag : sat.tagMode = false) (h : sat.Clean mem src p n) :
    copyWords mem dst src n = writeWords mem dst n (sat.fillWord dst p) := by
  rw [copyWords_eq_writeWords]
  refine writeWords_congr fun i hi => ?_
  rw [h i hi, fillWord, fillWord, fillData, fillData, htag]
  rfl

/-- With tags, they are once the copy has been retagged. -/
theorem tagAddrC_copyWords_clean (htag : sat.tagMode = true) (h : sat.Clean mem src p n) :
    tagAddrC (copyWords mem dst src n) dst (8 * n) = writeWords mem dst n (sat.fillWord dst p) := by
  rw [tagAddrC_eq, copyWords_eq_writeWords]
  funext a
  simp only [writeWords]
  by_cases hin : dst ≤ a ∧ a < dst + n
  · have ha : dst + (a - dst) = a := by omega
    rw [if_pos hin, if_pos hin, ha, if_pos hin, h _ (by omega), fillWord, fillWord, fillData,
      fillData, htag]
    by_cases hmod : (a - dst) % 8 = 0
    · simp [hmod, ha]
    · simp [hmod]
  · rw [if_neg hin, if_neg hin, if_neg hin]

theorem Clean.writeWords (h : sat.Clean mem src p n) (hd : DisjointWords dst src n) {m : Nat}
    (hm : m ≤ n) (f : Nat → Word64) : sat.Clean (writeWords mem dst m f) src p n :=
  h.congr fun _ hi => writeWords_disjoint hd hm hi

/-- **A tagged copy.** Both tags are right, and the words between them are the pattern. -/
theorem adlerAddrMemcpyC_clean (htag : sat.tagMode = true) (h : sat.Clean mem src p (2 * n))
    (hdst : Tagged mem dst (2 * n)) (hd : DisjointWords dst src (2 * n)) (hn : 2 * n ≤ 2 ^ 19) :
    adlerAddrMemcpyC mem dst src (16 * n) p =
      some ⟨writeWords mem dst (2 * n) (sat.fillWord dst p), 0, AdlerChecksum.sum p.pattern n⟩ := by
  have hcount := adlerCount_eq hn
  rw [adlerAddrMemcpyC, hcount, Option.map_some, show (2 * n + 1) / 2 = n by omega,
    Option.some.injEq]
  refine forUpTo_inv (fun g (s : AddrCrc) => s =
    ⟨writeWords mem dst (2 * g) (sat.fillWord dst p), 0, AdlerChecksum.sum p.pattern g⟩) ?_ ?_
  · rw [Nat.mul_zero, writeWords_zero]
    rfl
  · rintro g hg s rfl
    let m := writeWords mem dst (2 * g) (sat.fillWord dst p)
    have hsrc {i : Nat} (hi : i < 2 * n) : m (src + i) = mem (src + i) :=
      writeWords_disjoint hd (by omega) hi
    have hnext {i : Nat} (hi : 2 * g ≤ i) : m (dst + i) = mem (dst + i) :=
      writeWords_of_notMem (by omega)
    have hclean : sat.Clean m src p (2 * n) := h.congr fun i hi => hsrc hi
    -- the store to the destination is not seen by the second load
    have hload {x : Word64} : Function.update m (dst + 2 * g) x (src + (2 * g + 1)) =
        m (src + (2 * g + 1)) := by
      unfold DisjointWords at hd
      exact Function.update_of_ne (by omega) _ _
    have hsecond : m (src + (2 * g + 1)) = sat.fillWord dst p (2 * g + 1) := by
      rw [hclean _ (by omega), fillWord, fillWord, fillData, fillData]
      have : ((2 * g + 1) % 8 == 0) = false := by
        rw [beq_eq_false_iff_ne]
        omega
      simp [this]
    change addrMemcpyPass dst src p g ⟨m, 0, AdlerChecksum.sum p.pattern g⟩ = _
    simp only [addrMemcpyPass, copySecond]
    by_cases hmod : 2 * g % 8 = 0
    · have hs : m (src + 2 * g) = addrToTag (src + 2 * g) := hclean.tagged htag _ (by omega) hmod
      have ht : m (dst + 2 * g) = addrToTag (dst + 2 * g) := by
        rw [hnext (Nat.le_refl _), hdst _ (by omega) hmod]
      have hfirst : addrToTag (dst + 2 * g) = sat.fillWord dst p (2 * g) := by
        rw [fillWord, fillData]
        simp [htag, hmod]
      simp only [if_pos hmod, copyTag, checkTag_tagged hs, ht, ne_eq, not_true_eq_false, if_false,
        hload]
      have hsum := hclean.pass (g := g) (by omega) (AdlerChecksum.sum p.pattern g) rfl
      simp only [low_datacast, high_datacast] at hsum
      rw [update_update_writeWords hfirst hsecond]
      exact congrArg _ hsum
    · have hs := hclean.first (g := g) (by omega) fun hc => hmod hc.2
      have hfirst : m (src + 2 * g) = sat.fillWord dst p (2 * g) := by
        rw [hs, fillWord, fillData]
        simp [hmod]
      simp only [if_neg hmod, copyFirst, hload]
      have hsum := hclean.pass (g := g) (by omega) (AdlerChecksum.sum p.pattern g) hs
      rw [update_update_writeWords hfirst hsecond]
      exact congrArg _ hsum

/-- What the block copies of clean memory have in common. -/
def CopiesBlock (sat : Sat) (copy : Mem → Nat → Nat → Pattern → Option AddrCrc) : Prop :=
  ∀ {mem : Mem} {dst src : Nat} {p : Pattern}, sat.Clean mem src p 512 →
    (sat.tagMode = true → Tagged mem dst 512) → DisjointWords dst src 512 →
    copy mem dst src p = some ⟨writeWords mem dst 512 (sat.fillWord dst p), 0, p.crc⟩

theorem copyBlock_clean (sat : Sat) : sat.CopiesBlock sat.copyBlock := by
  intro mem dst src p h hdst hd
  rw [copyBlock, p.crc_eq_sum]
  split
  · next htag => exact adlerAddrMemcpyC_clean (n := 256) htag h (hdst htag) hd (by norm_num)
  · next htag =>
    have htag' : sat.tagMode = false := by simpa using htag
    rw [adlerMemcpyC_eq (n := 256) (by decide) hd, copyWords_clean htag' h,
      AdlerChecksum.sum_congr fun i hi => h.unitAt htag' (by omega)]
    rfl

/-- The vector code and the C code copy alike. -/
theorem osAdlerMemcpyWarm_eq (vector : Option Isa) (hd : DisjointWords dst src 512) :
    osAdlerMemcpyWarm vector mem dst src 4096 =
      some (copyWords mem dst src 512, AdlerChecksum.sum (StressAppTest.unitAt mem src) 256) := by
  unfold osAdlerMemcpyWarm
  split
  · exact adlerMemcpyAsm_eq (n := 64) (by norm_num) (by norm_num) hd
  · exact adlerMemcpyC_eq (n := 256) (by decide) hd

theorem warmCopyBlock_clean (sat : Sat) : sat.CopiesBlock sat.warmCopyBlock := by
  intro mem dst src p h _ hd
  rw [warmCopyBlock, p.crc_eq_sum]
  split
  · next htag =>
    have hcopied : sat.Clean (copyWords mem dst src 512) src p 512 := by
      rw [copyWords_eq_writeWords]
      exact h.writeWords hd (Nat.le_refl _) _
    have hcrc : adlerAddrCrcC (copyWords mem dst src 512) src 4096 p =
        some ⟨copyWords mem dst src 512, 0, AdlerChecksum.sum p.pattern 256⟩ :=
      adlerAddrCrcC_clean (n := 256) htag hcopied (by norm_num)
    simp only [adlerAddrMemcpyWarm, osAdlerMemcpyWarm_eq _ hd, hcrc, Option.bind_eq_bind,
      Option.bind_some, Option.pure_def, Option.some.injEq, AddrCrc.mk.injEq, and_true]
    exact tagAddrC_copyWords_clean (n := 512) htag h
  · next htag =>
    have htag' : sat.tagMode = false := by simpa using htag
    rw [osAdlerMemcpyWarm_eq _ hd, copyWords_clean htag' h,
      AdlerChecksum.sum_congr fun i hi => h.unitAt htag' (by omega)]
    rfl

/-- The leftovers of a clean page complete the copy. -/
theorem copyLeftovers_clean (hsrc : src % 8 = 0) (h : sat.Clean mem src p sat.pageWords)
    (hd : DisjointWords dst src sat.pageWords) :
    sat.copyLeftovers dst src p
        ⟨writeWords mem dst (512 * (sat.pageLength / 4096)) (sat.fillWord dst p), 0, 0⟩ =
      ⟨writeWords mem dst sat.pageWords (sat.fillWord dst p), 0, 0⟩ := by
  have hle : 512 * (sat.pageLength / 4096) ≤ sat.pageWords := by
    unfold pageWords
    omega
  have hmod := pageLength_mod sat
  obtain ⟨m, hm⟩ := Nat.exists_eq_add_of_le hle
  rw [copyLeftovers]
  split
  · next h0 =>
    have : 512 * (sat.pageLength / 4096) = sat.pageWords := by omega
    rw [this]
  · have hlen : sat.pageLength % 4096 = 8 * m := by omega
    have hrest : sat.Clean (writeWords mem dst (512 * (sat.pageLength / 4096)) (sat.fillWord dst p))
        (src + 512 * (sat.pageLength / 4096)) p m := (h.writeWords hd hle _).block (by omega)
    have hwrite : writeWords (writeWords mem dst (512 * (sat.pageLength / 4096)) (sat.fillWord dst p))
        (dst + 512 * (sat.pageLength / 4096)) m
        (sat.fillWord (dst + 512 * (sat.pageLength / 4096)) p) =
          writeWords mem dst sat.pageWords (sat.fillWord dst p) := by
      rw [writeWords_append fun i _ => (sat.fillWord_add dst p _ i).symm, ← hm]
    simp only [hlen, checkRegion_clean (by omega : (src + 512 * (sat.pageLength / 4096)) % 8 = 0) hrest,
      Nat.mul_div_cancel_left m (by norm_num : 0 < 8), Nat.add_zero, Checked.mk.injEq, and_true]
    split
    · next htag => rw [tagAddrC_copyWords_clean htag hrest, hwrite]
    · next htag => rw [copyWords_clean (by simpa using htag) hrest, hwrite]

/-- **A page copy of clean memory** writes the words of `FillPage` and counts no error. -/
theorem copyPageWith_clean {copy : Mem → Nat → Nat → Pattern → Option AddrCrc}
    (hcopy : sat.CopiesBlock copy) (marker : Word64) (hsrc : src % 8 = 0)
    (h : sat.Clean mem src p sat.pageWords) (hd : DisjointWords dst src sat.pageWords)
    (hdst : sat.tagMode = true → Tagged mem dst sat.pageWords) :
    sat.copyPageWith copy marker mem dst src p =
      ⟨writeWords mem dst sat.pageWords (sat.fillWord dst p), 0, 0⟩ := by
  have hblocks : forUpTo (sat.pageLength / 4096) (sat.copyPageBlock copy marker dst src p) ⟨mem, 0, 0⟩ =
      ⟨writeWords mem dst (512 * (sat.pageLength / 4096)) (sat.fillWord dst p), 0, 0⟩ := by
    refine forUpTo_inv (fun b (s : Checked) => s =
      ⟨writeWords mem dst (512 * b) (sat.fillWord dst p), 0, 0⟩) ?_ ?_
    · rw [Nat.mul_zero, writeWords_zero]
    · rintro b hb s rfl
      have hle := pageWords_blocks sat hb
      have hclean : sat.Clean (writeWords mem dst (512 * b) (sat.fillWord dst p)) (src + 512 * b) p 512 :=
        (h.writeWords hd (by omega) _).block hle
      have htagged : sat.tagMode = true →
          Tagged (writeWords mem dst (512 * b) (sat.fillWord dst p)) (dst + 512 * b) 512 := by
        intro htag i hi hmod
        rw [writeWords_of_notMem (by omega), Nat.add_assoc]
        exact hdst htag _ (by omega) (by omega)
      simp only [copyPageBlock, hcopy hclean htagged (hd.block hle), if_true, Nat.add_zero,
        Checked.mk.injEq, and_true]
      exact writeWords_append fun i _ => (sat.fillWord_add dst p b i).symm
  rw [copyPageWith, hblocks, copyLeftovers_clean hsrc h hd]
  rfl

theorem memcpyPage_clean (h : sat.Clean mem src p sat.pageWords) :
    sat.memcpyPage mem dst src = writeWords mem dst sat.pageWords (sat.fillWord dst p) := by
  have hlen : sat.pageLength = 8 * sat.pageWords := by
    obtain ⟨k, hw, hl⟩ := sat.pageLength_eq
    omega
  rw [memcpyPage]
  split
  · next htag => rw [hlen, tagAddrC_copyWords_clean htag h]
  · next htag => exact copyWords_clean (by simpa using htag) h

end Sat

end StressAppTest
