import StressAppTest.Memory.Fill

/-!
# Checking a page (`CheckRegion`, `AdlerAddrCrcC`, `CrcCheckPage` of `worker.cc`)

Blocks of 4096 bytes are checked by their checksum and compared word by word only when it is
wrong; what is left of a shorter page is always compared. A word that compares wrong is
overwritten with the expected one. The functions return the memory they leave, the errors
they return and what they add to `errorcount_` (`Checked`).

* `crcCheckPage_clean`: a clean page passes without an error and is left as it is.
-/

namespace StressAppTest.Sat

/-- The memory after a check, the errors it returns and those it has counted. -/
structure Checked where
  mem : Mem
  errors : Nat
  errorcount : Nat

/-! ## `CheckRegion` -/

/-- The value that should be at word `i` of a region. -/
def regionWord (sat : Sat) (addr : Nat) (p : Pattern) (patternOffset i : Nat) : Word64 :=
  if sat.tagMode && 8 * (addr + i) % 64 == 0 then addrToTag (addr + i)
  else datacast (p.pattern (2 * i + patternOffset)) (p.pattern (2 * i + patternOffset + 1))

def kErrorLimit : Nat := 128

/-- The repair of `ProcessError`. -/
def repair (sat : Sat) (addr : Nat) (p : Pattern) (patternOffset : Nat) (mem : Mem) (i : Nat) : Mem :=
  Function.update mem (addr + i) (sat.regionWord addr p patternOffset i)

/-- One word of the second scan, which repairs as it goes. -/
def overflowPass (sat : Sat) (addr : Nat) (p : Pattern) (patternOffset i : Nat) (s : Mem × Nat) :
    Mem × Nat :=
  if s.1 (addr + i) ≠ sat.regionWord addr p patternOffset i then
    (sat.repair addr p patternOffset s.1 i, s.2 + 1)
  else s

/-- `WorkerThread::CheckRegion`: the memory it leaves and the errors it returns. The first
scan records up to `kErrorLimit` wrong words and stops at the next one, from which a second
scan goes on after the recorded ones have been repaired. The search for a whole wrong block
only chooses the text of the messages. -/
def checkRegion (sat : Sat) (mem : Mem) (addr : Nat) (p : Pattern) (length patternOffset : Nat) :
    Mem × Nat :=
  let bad := (List.range (length / 8)).filter fun i =>
    mem (addr + i) != sat.regionWord addr p patternOffset i
  let recorded := bad.take kErrorLimit
  let repaired := recorded.foldl (sat.repair addr p patternOffset) mem
  match (bad.drop kErrorLimit).head? with
  | none => (repaired, recorded.length)
  | some start =>
    let rest := forUpTo (length / 8 - start)
      (fun k => sat.overflowPass addr p patternOffset (start + k)) (repaired, 0)
    (rest.1, recorded.length + rest.2)

variable {sat : Sat} {mem : Mem} {base : Nat} {p : Pattern} {n : Nat}

theorem regionWord_eq_fillWord (hbase : base % 8 = 0) (i : Nat) :
    sat.regionWord base p 0 i = sat.fillWord base p i := by
  have htag : (8 * (base + i) % 64 == 0) = (i % 8 == 0) := by
    rw [Bool.eq_iff_iff, beq_iff_eq, beq_iff_eq]
    omega
  rw [regionWord, fillWord, fillData, htag]
  rfl

theorem checkRegion_clean (hbase : base % 8 = 0) (h : sat.Clean mem base p n) :
    sat.checkRegion mem base p (8 * n) 0 = (mem, 0) := by
  have hbad : (List.range (8 * n / 8)).filter (fun i =>
      mem (base + i) != sat.regionWord base p 0 i) = [] := by
    rw [List.filter_eq_nil_iff]
    intro i hi
    have hlt : i < n := by simpa using hi
    simp [regionWord_eq_fillWord hbase, h i hlt]
  simp only [checkRegion, hbad, List.take_nil, List.drop_nil, List.head?_nil, List.foldl_nil,
    List.length_nil]

/-! ## Checksums of tagged memory -/

/-- The state of the loop of `AdlerAddrCrcC`. -/
structure AddrCrc where
  mem : Mem
  errorcount : Nat
  sum : AdlerChecksum

/-- `ReportTagError` when the word at `a` is not its tag: the tag is written there. -/
def checkTag (mem : Mem) (a : Nat) : Mem × Nat :=
  if mem a ≠ addrToTag a then (Function.update mem a (addrToTag a), 1) else (mem, 0)

/-- One pass of the loop of `AdlerAddrCrcC`: a tag enters the checksum as the pattern it
replaces. -/
def addrCrcPass (src : Nat) (p : Pattern) (g : Nat) (s : AddrCrc) : AddrCrc :=
  let i := 2 * g
  let tag := if i % 8 = 0 then checkTag s.mem (src + i) else (s.mem, 0)
  let first := if i % 8 = 0 then datacast (p.pattern (2 * i)) (p.pattern (2 * i + 1))
    else tag.1 (src + i)
  let second := tag.1 (src + (i + 1))
  ⟨tag.1, s.errorcount + tag.2, s.sum.group (low first) (high first) (low second) (high second)⟩

/-- `WorkerThread::AdlerAddrCrcC` -/
def adlerAddrCrcC (mem : Mem) (srcmem64 sizeInBytes : Nat) (p : Pattern) : Option AddrCrc :=
  (adlerCount sizeInBytes).map fun count =>
    forUpTo ((count + 1) / 2) (addrCrcPass srcmem64 p) ⟨mem, 0, AdlerChecksum.seed⟩

/-- A clean word, or the word under its tag, holds the pattern. -/
theorem Clean.pass (h : sat.Clean mem base p n) {g : Nat} (hg : 2 * g + 1 < n) (s : AdlerChecksum)
    {first : Word64}
    (hfirst : first = datacast (p.pattern (2 * (2 * g))) (p.pattern (2 * (2 * g) + 1))) :
    s.group (low first) (high first) (low (mem (base + (2 * g + 1))))
      (high (mem (base + (2 * g + 1)))) = AdlerChecksum.pass p.pattern g s := by
  have hsecond : mem (base + (2 * g + 1)) =
      datacast (p.pattern (2 * (2 * g + 1))) (p.pattern (2 * (2 * g + 1) + 1)) := by
    rw [h _ hg, fillWord, fillData]
    have : ((2 * g + 1) % 8 == 0) = false := by
      rw [beq_eq_false_iff_ne]
      omega
    simp [this]
  rw [hfirst, hsecond]
  simp only [low_datacast, high_datacast, AdlerChecksum.pass]
  rw [show 2 * (2 * g) = 4 * g by ring, show 2 * (2 * g + 1) = 4 * g + 2 by ring]

theorem checkTag_tagged {a : Nat} (h : mem a = addrToTag a) : checkTag mem a = (mem, 0) := by
  rw [checkTag, if_neg (by simpa using h)]

theorem Clean.first (h : sat.Clean mem base p n) {g : Nat} (hg : 2 * g < n)
    (hdata : ¬ (sat.tagMode = true ∧ 2 * g % 8 = 0)) :
    mem (base + 2 * g) = datacast (p.pattern (2 * (2 * g))) (p.pattern (2 * (2 * g) + 1)) := by
  rw [h _ hg, fillWord, fillData, if_neg (by simpa using hdata)]

theorem adlerAddrCrcC_clean (htag : sat.tagMode = true) (h : sat.Clean mem base p (2 * n))
    (hn : 2 * n ≤ 2 ^ 19) :
    adlerAddrCrcC mem base (16 * n) p = some ⟨mem, 0, AdlerChecksum.sum p.pattern n⟩ := by
  have hcount := adlerCount_eq hn
  rw [adlerAddrCrcC, hcount, Option.map_some, show (2 * n + 1) / 2 = n by omega, Option.some.injEq]
  refine forUpTo_inv (fun g (s : AddrCrc) => s = ⟨mem, 0, AdlerChecksum.sum p.pattern g⟩) rfl ?_
  rintro g hg s rfl
  simp only [addrCrcPass]
  by_cases hmod : 2 * g % 8 = 0
  · rw [if_pos hmod, if_pos hmod, checkTag_tagged (h.tagged htag _ (by omega) hmod)]
    simp only [h.pass (g := g) (by omega) _ rfl]
    rfl
  · rw [if_neg hmod, if_neg hmod]
    simp only [h.pass (g := g) (by omega) _ (h.first (by omega) fun hc => hmod hc.2)]
    rfl

/-- Without tags the units of clean memory are those of the pattern. -/
theorem Clean.unitAt (htag : sat.tagMode = false) (h : sat.Clean mem base p n) {i : Nat}
    (hi : i < 2 * n) : unitAt mem base i = p.pattern i := by
  have hword : mem (base + i / 2) = datacast (p.pattern (2 * (i / 2))) (p.pattern (2 * (i / 2) + 1)) := by
    rw [h _ (by omega), fillWord, fillData, htag]
    rfl
  rw [StressAppTest.unitAt, hword]
  split
  · rw [low_datacast, show 2 * (i / 2) = i by omega]
  · rw [high_datacast, show 2 * (i / 2) + 1 = i by omega]

theorem calculateAdlerChecksum_clean (htag : sat.tagMode = false) (h : sat.Clean mem base p (2 * n))
    (hn : 2 * n ≤ 2 ^ 19) :
    calculateAdlerChecksum mem base (16 * n) = some (AdlerChecksum.sum p.pattern n) := by
  have hcount := adlerCount_eq hn
  rw [calculateAdlerChecksum_eq hcount, show (2 * n + 1) / 2 = n by omega]
  congr 1
  exact AdlerChecksum.sum_congr fun i hi => h.unitAt htag (by omega)

/-! ## `CrcCheckPage` -/

/-- The checksum of one block of 4096 bytes. -/
def blockCrc (sat : Sat) (mem : Mem) (memslice : Nat) (p : Pattern) : Option AddrCrc :=
  if sat.tagMode then adlerAddrCrcC mem memslice 4096 p
  else (calculateAdlerChecksum mem memslice 4096).map fun crc => ⟨mem, 0, crc⟩

/-- One block of `CrcCheckPage`. -/
def crcCheckBlock (sat : Sat) (memblock : Nat) (p : Pattern) (currentblock : Nat) (s : Checked) :
    Checked :=
  let memslice := memblock + 512 * currentblock
  match sat.blockCrc s.mem memslice p with
  | none => s
  | some crc =>
    if crc.sum = p.crc then { s with mem := crc.mem, errorcount := s.errorcount + crc.errorcount }
    else
      let region := sat.checkRegion crc.mem memslice p 4096 0
      ⟨region.1, s.errors + region.2, s.errorcount + crc.errorcount + region.2⟩

/-- The part of a page that is shorter than a block. -/
def checkLeftovers (sat : Sat) (memblock : Nat) (p : Pattern) (s : Checked) : Checked :=
  if sat.pageLength % 4096 = 0 then s
  else
    let region := sat.checkRegion s.mem (memblock + 512 * (sat.pageLength / 4096)) p
      (sat.pageLength % 4096) 0
    ⟨region.1, s.errors + region.2, s.errorcount + region.2⟩

/-- `WorkerThread::CrcCheckPage` of the page at word address `memblock`. -/
def crcCheckPage (sat : Sat) (mem : Mem) (memblock : Nat) (p : Pattern) : Checked :=
  sat.checkLeftovers memblock p
    (forUpTo (sat.pageLength / 4096) (sat.crcCheckBlock memblock p) ⟨mem, 0, 0⟩)

theorem blockCrc_clean (h : sat.Clean mem base p 512) :
    sat.blockCrc mem base p = some ⟨mem, 0, p.crc⟩ := by
  rw [blockCrc, p.crc_eq_sum]
  split
  · next htag => exact adlerAddrCrcC_clean (n := 256) htag h (by norm_num)
  · next htag =>
    rw [show 4096 = 16 * 256 by norm_num, calculateAdlerChecksum_clean (by simpa using htag) h (by norm_num)]
    rfl

/-- Whole blocks of a page. -/
theorem pageWords_blocks (sat : Sat) {b : Nat} (hb : b < sat.pageLength / 4096) :
    512 * b + 512 ≤ sat.pageWords := by
  unfold pageWords
  omega

/-- What is left of a page after its blocks, in words. -/
theorem pageLength_mod (sat : Sat) :
    sat.pageLength % 4096 = 8 * (sat.pageWords - 512 * (sat.pageLength / 4096)) := by
  obtain ⟨k, hw, hl⟩ := sat.pageLength_eq
  rw [hw]
  omega

theorem checkLeftovers_clean (hbase : base % 8 = 0) (h : sat.Clean mem base p sat.pageWords) :
    sat.checkLeftovers base p ⟨mem, 0, 0⟩ = ⟨mem, 0, 0⟩ := by
  unfold checkLeftovers
  split
  · rfl
  · rw [pageLength_mod, checkRegion_clean (by omega) (h.block (by unfold pageWords; omega))]
    rfl

/-- **A clean page passes its check.** -/
theorem crcCheckPage_clean (hbase : base % 8 = 0) (h : sat.Clean mem base p sat.pageWords) :
    sat.crcCheckPage mem base p = ⟨mem, 0, 0⟩ := by
  have hblocks : forUpTo (sat.pageLength / 4096) (sat.crcCheckBlock base p) ⟨mem, 0, 0⟩ =
      ⟨mem, 0, 0⟩ := by
    refine forUpTo_inv (fun _ (s : Checked) => s = ⟨mem, 0, 0⟩) rfl ?_
    rintro b hb s rfl
    simp only [crcCheckBlock, blockCrc_clean (h.block (pageWords_blocks sat hb)), if_true]
  rw [crcCheckPage, hblocks, checkLeftovers_clean hbase h]

end StressAppTest.Sat
