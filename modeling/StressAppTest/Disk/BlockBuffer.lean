import Mathlib.Data.Nat.Count
import StressAppTest.Memory.CheckRegion
import StressAppTest.Memory.SectorTags

/-!
# A block on its way to the disk and back (`WriteBlockToDisk`, `ValidateBlockOnDisk`)

The block buffer is a memory of its own, and so is the disk, in words of 64 bits with 64 words to a
sector. All reads and writes succeed.

`WriteBlockToDisk` copies a page into the buffer, or fills it with a pattern where no page can be
had. The fill counts words of 64 bits and stores 32 bits for each (`write_block_iff`).

`ValidateBlockOnDisk` reads the block back in chunks of random sizes. Whatever the sizes are, the
chunks follow each other and cover the block. Each is compared with the pattern at an offset that
counts bytes where `CheckRegion` wants 32-bit words (`validate_split_iff`).
-/

namespace StressAppTest.Disk

/-! ## `WriteBlockToDisk` -/

/-- The block buffer and the pattern of the block when the write is issued. `page` is what `GetValid`
returns, by its word address in `pages` and its pattern, and `random` what `GetRandomPattern` does. -/
def fillBuffer (buf pages : Mem) (buffer size : Nat) (page : Option (Nat × Pattern)) (random : Pattern) :
    Mem × Pattern :=
  let cleared := writeWords buf buffer (size / 8) fun _ => 0
  match page with
  | none =>
      (forUpTo (size / 8) (fun i m => setUnit m (2 * buffer + i) (random.pattern i)) cleared, random)
  | some (addr, pattern) => (writeWords cleared buffer (size / 8) fun i => pages (addr + i), pattern)

/-- The disk after the write, with the first sector of the block. -/
def writeBlock (disk buf : Mem) (buffer address size : Nat) : Mem :=
  writeWords disk (64 * address) (size / 8) fun i => buf (buffer + i)

/-! ## `ValidateBlockOnDisk` -/

/-- The variables of the loop. `found` are the errors that `CheckRegion` has returned, and `chunks`
the ranges of bytes that were read, by start and length. -/
structure ReadState where
  buf : Mem
  bytesRead : Nat
  blocks : Nat
  errorcount : Nat
  found : Nat
  chunks : List (Nat × Nat)

/-- The parts of `ValidateBlockOnDisk` that stay the same. -/
structure BlockRead where
  disk : Mem
  buffer : Nat
  address : Nat
  readBlockSize : Nat
  pattern : Pattern
  nonDestructive : Bool

/-- A pass of the loop, with a value of `random()`. -/
def readChunk (sat : Sat) (b : BlockRead) (random : Nat) (s : ReadState) : ReadState :=
  let currentBlocks := random % s.blocks + 1
  let currentBytes := currentBlocks * b.readBlockSize
  let cleared := writeWords s.buf b.buffer (currentBytes / 8) fun _ => 0
  let read := writeWords cleared b.buffer (currentBytes / 8) fun i =>
    b.disk (64 * b.address + s.bytesRead / 8 + i)
  let region :=
    if b.nonDestructive then (read, 0)
    else sat.checkRegion read b.buffer b.pattern currentBytes s.bytesRead
  { buf := region.1
    bytesRead := s.bytesRead + currentBlocks * b.readBlockSize
    blocks := s.blocks - currentBlocks
    errorcount := s.errorcount + region.2 + if region.2 ≠ 0 then 1 else 0
    found := s.found + region.2
    chunks := s.chunks ++ [(s.bytesRead, currentBytes)] }

/-- The loop, with the values of `random()` from the `k`-th on. -/
def readBlocks (sat : Sat) (b : BlockRead) (random : Nat → Nat) (k : Nat) (s : ReadState) : ReadState :=
  if s.blocks = 0 then s else readBlocks sat b random (k + 1) (readChunk sat b (random k) s)
termination_by s.blocks
decreasing_by
  simp only [readChunk]
  omega

/-- `ValidateBlockOnDisk` of a block of this size. -/
def validateBlock (sat : Sat) (b : BlockRead) (size : Nat) (random : Nat → Nat) (buf : Mem) :
    ReadState :=
  readBlocks sat b random 0 ⟨buf, 0, size / b.readBlockSize, 0, 0, []⟩

/-! ## The chunks -/

/-- The ranges that the values of `random()` make of so many read blocks. -/
def chunksOf (readBlockSize : Nat) (random : Nat → Nat) (k blocks bytesRead : Nat) : List (Nat × Nat) :=
  if blocks = 0 then []
  else
    (bytesRead, (random k % blocks + 1) * readBlockSize) ::
      chunksOf readBlockSize random (k + 1) (blocks - (random k % blocks + 1))
        (bytesRead + (random k % blocks + 1) * readBlockSize)
termination_by blocks
decreasing_by omega

/-- The words of a chunk that `CheckRegion` finds different. -/
def chunkErrors (disk : Mem) (address : Nat) (p : Pattern) (c : Nat × Nat) : Nat :=
  Nat.count (fun i => disk (64 * address + c.1 / 8 + i) ≠ Sat.patternData p c.1 i) (c.2 / 8)

/-- The words of a block that differ from the pattern at their position in the block. -/
def blockErrors (disk : Mem) (address : Nat) (p : Pattern) (size : Nat) : Nat :=
  Nat.count (fun i => disk (64 * address + i) ≠ Sat.patternData p 0 i) (size / 8)

theorem count_congr {p q : Nat → Prop} [DecidablePred p] [DecidablePred q] {n : Nat}
    (h : ∀ k < n, (p k ↔ q k)) : Nat.count p n = Nat.count q n :=
  Nat.le_antisymm (Nat.count_mono_left fun k hk => (h k hk).mp)
    (Nat.count_mono_left fun k hk => (h k hk).mpr)

section Region

variable {sat : Sat}

/-- The wrong words of a region, counted. -/
theorem length_wrongWords (r : Sat.Region) (mem : Mem) (k : Nat) :
    (sat.wrongWords r mem 0 k).length = Nat.count (fun i => mem (r.addr + i) ≠ sat.expected r i) k := by
  induction k with
  | zero => rfl
  | succ k ih =>
      rw [Nat.count_succ, ← ih, Sat.wrongWords, List.range'_concat, List.filter_append,
        List.length_append, Nat.one_mul, Nat.zero_add]
      congr 1
      by_cases hbad : mem (r.addr + k) ≠ sat.expected r k
      · rw [if_pos hbad, List.filter_cons_of_pos (by simpa using hbad)]
        rfl
      · rw [if_neg hbad, List.filter_cons_of_neg (by simpa using hbad)]
        rfl

/-- Without tags `CheckRegion` returns the number of words that are not those of the pattern. -/
theorem checkRegion_count (htag : sat.tagMode = false) (mem : Mem) (addr : Nat) (p : Pattern)
    (length patternOffset : Nat) : (sat.checkRegion mem addr p length patternOffset).2 =
      Nat.count (fun i => mem (addr + i) ≠ Sat.patternData p patternOffset i) (length / 8) := by
  let r : Sat.Region := ⟨addr, p, none, 0, length, 0, patternOffset, 0, "", "", 0⟩
  have hword (i : Nat) : sat.expected r i = Sat.patternData p patternOffset i := by
    rw [Sat.expected, Sat.regionWord, htag]
    rfl
  have hcount : (sat.wrongWords r mem 0 (length / 8)).length = _ := length_wrongWords r mem _
  simp only [hword] at hcount
  exact (congrArg Prod.snd (sat.checkRegion_eq r mem)).trans hcount

variable {b : BlockRead}

/-- A pass compares its chunk. -/
theorem readChunk_found (htag : sat.tagMode = false) (hb : b.nonDestructive = false) (random : Nat)
    (s : ReadState) : (readChunk sat b random s).found = s.found +
      chunkErrors b.disk b.address b.pattern
        (s.bytesRead, (random % s.blocks + 1) * b.readBlockSize) := by
  have hcheck := checkRegion_count htag
    (writeWords (writeWords s.buf b.buffer ((random % s.blocks + 1) * b.readBlockSize / 8) fun _ => 0)
      b.buffer ((random % s.blocks + 1) * b.readBlockSize / 8) fun i =>
        b.disk (64 * b.address + s.bytesRead / 8 + i))
    b.buffer b.pattern ((random % s.blocks + 1) * b.readBlockSize) s.bytesRead
  simp only [readChunk, hb, Bool.false_eq_true, if_false, hcheck, chunkErrors]
  congr 1
  refine count_congr fun i hi => ?_
  rw [writeWords_apply hi]

/-- The loop ends, has read its chunks one after the other and has compared each of them. -/
theorem readBlocks_spec (htag : sat.tagMode = false) (hb : b.nonDestructive = false)
    (random : Nat → Nat) (k : Nat) (s : ReadState) :
    let t := readBlocks sat b random k s
    let chunks := chunksOf b.readBlockSize random k s.blocks s.bytesRead
    t.blocks = 0 ∧ t.bytesRead = s.bytesRead + s.blocks * b.readBlockSize ∧
      t.chunks = s.chunks ++ chunks ∧
      t.found = s.found + (chunks.map (chunkErrors b.disk b.address b.pattern)).sum := by
  induction hblocks : s.blocks using Nat.strongRecOn generalizing k s with
  | ind n ih =>
      rw [readBlocks, chunksOf]
      by_cases hzero : n = 0
      · subst hzero
        simp [hblocks]
      · have hcurrent : random k % n + 1 ≤ n := Nat.mod_lt _ (by omega)
        have hnext : (readChunk sat b (random k) s).blocks = n - (random k % n + 1) := by
          rw [readChunk, hblocks]
        have hbytes : (readChunk sat b (random k) s).bytesRead =
            s.bytesRead + (random k % n + 1) * b.readBlockSize := by
          rw [readChunk, hblocks]
        have hchunks : (readChunk sat b (random k) s).chunks =
            s.chunks ++ [(s.bytesRead, (random k % n + 1) * b.readBlockSize)] := by
          rw [readChunk, hblocks]
        have hfound := readChunk_found htag hb (random k) s
        rw [hblocks] at hfound
        obtain ⟨hend, hread, hlist, hcount⟩ := ih _ (by omega) (k + 1) _ hnext
        rw [if_neg (by omega), if_neg hzero]
        refine ⟨hend, ?_, ?_, ?_⟩
        · rw [hread, hbytes, Nat.add_assoc, ← Nat.add_mul, Nat.add_sub_cancel' hcurrent]
        · rw [hlist, hchunks, hbytes, List.append_assoc]
          rfl
        · rw [hcount, hfound, hbytes, List.map_cons, List.sum_cons, Nat.add_assoc]

end Region

/-! ## The cover -/

/-- The chunks follow each other without a gap. -/
theorem chunksOf_cover (readBlockSize : Nat) (random : Nat → Nat) (k blocks bytesRead : Nat) :
    (chunksOf readBlockSize random k blocks bytesRead).flatMap (fun c => List.range' c.1 c.2) =
      List.range' bytesRead (blocks * readBlockSize) := by
  induction blocks using Nat.strongRecOn generalizing k bytesRead with
  | ind n ih =>
      rw [chunksOf]
      by_cases hzero : n = 0
      · subst hzero
        simp
      · have hcurrent : random k % n + 1 ≤ n := Nat.mod_lt _ (by omega)
        rw [if_neg hzero, List.flatMap_cons, ih _ (by omega), List.range'_append_1, ← Nat.add_mul,
          Nat.add_sub_cancel' hcurrent]

/-- A count over the block is a count over its chunks. -/
theorem sum_chunksOf {P : Nat → Prop} [DecidablePred P] {readBlockSize bytesRead : Nat}
    (hread : 8 ∣ readBlockSize) (hbytes : 8 ∣ bytesRead) (random : Nat → Nat) (k blocks : Nat) :
    ((chunksOf readBlockSize random k blocks bytesRead).map fun c =>
      Nat.count (fun i => P (c.1 / 8 + i)) (c.2 / 8)).sum =
        Nat.count (fun i => P (bytesRead / 8 + i)) (blocks * readBlockSize / 8) := by
  obtain ⟨w, rfl⟩ := hread
  induction blocks using Nat.strongRecOn generalizing k bytesRead with
  | ind n ih =>
      obtain ⟨v, rfl⟩ := hbytes
      rw [chunksOf]
      by_cases hzero : n = 0
      · subst hzero
        simp
      · have hcurrent : random k % n + 1 ≤ n := Nat.mod_lt _ (by omega)
        have hwords (m : Nat) : m * (8 * w) / 8 = m * w := by
          rw [Nat.mul_left_comm, Nat.mul_div_cancel_left _ (by omega)]
        have hstart : (8 * v + (random k % n + 1) * (8 * w)) / 8 = v + (random k % n + 1) * w := by
          rw [Nat.mul_left_comm, ← Nat.mul_add, Nat.mul_div_cancel_left _ (by omega)]
        have hnext : 8 ∣ 8 * v + (random k % n + 1) * (8 * w) :=
          Nat.dvd_add ⟨v, rfl⟩ ⟨(random k % n + 1) * w, by ring⟩
        rw [if_neg hzero, List.map_cons, List.sum_cons, ih _ (by omega) hnext, hwords, hwords, hwords,
          hstart, Nat.mul_div_cancel_left _ (by omega)]
        have hsplit := Nat.count_add (fun i => P (v + i)) ((random k % n + 1) * w)
          ((n - (random k % n + 1)) * w)
        rw [← Nat.add_mul, Nat.add_sub_cancel' hcurrent] at hsplit
        simp only [hsplit, Nat.add_assoc]

/-! ## The two functions -/

/-- A word of two units. -/
theorem word_eq_units (mem : Mem) (a : Nat) :
    mem a = datacast (unitOf mem (2 * a)) (unitOf mem (2 * a + 1)) := by
  rw [unitOf, unitOf, if_pos (by omega), if_neg (by omega), show 2 * a / 2 = a by omega,
    show (2 * a + 1) / 2 = a by omega, datacast_low_high]

/-- A unit of a copy. -/
theorem unitOf_writeWords (mem src : Mem) (base a : Nat) {n i : Nat} (hi : i < 2 * n) :
    unitOf (writeWords mem base n fun j => src (a + j)) (2 * base + i) = unitOf src (2 * a + i) := by
  have hword : writeWords mem base n (fun j => src (a + j)) ((2 * base + i) / 2) = src ((2 * a + i) / 2) := by
    rw [show (2 * base + i) / 2 = base + i / 2 by omega, writeWords_apply (by omega),
      show (2 * a + i) / 2 = a + i / 2 by omega]
  rw [unitOf, unitOf, hword]
  exact if_congr (by omega) rfl rfl

/-- The units of the buffer: a page is copied, and the fallback fills the first half. -/
theorem unitOf_fillBuffer (buf pages : Mem) (buffer : Nat) {size : Nat} (hsize : 512 ∣ size)
    (page : Option (Nat × Pattern)) (random : Pattern) {i : Nat} (hi : i < size / 4) :
    unitOf (fillBuffer buf pages buffer size page random).1 (2 * buffer + i) =
      match page with
      | none => if i < size / 8 then random.pattern i else 0
      | some (addr, _) => unitOf pages (2 * addr + i) := by
  obtain ⟨k, rfl⟩ := hsize
  cases page with
  | none =>
      simp only [fillBuffer]
      split
      · next hlt =>
        have hinj : Function.Injective fun i => 2 * buffer + i := fun i j h => by simpa using h
        exact unitOf_stores_self hinj hlt
      · next hge =>
        rw [unitOf_stores_other fun j hj heq => by omega]
        exact (unitOf_writeWords buf (fun _ => 0) buffer 0 (by omega)).trans (by
          rw [unitOf]
          split <;> rfl)
  | some page => exact unitOf_writeWords _ pages buffer page.1 (by omega)

/-- What `ValidateBlockOnDisk` does to a block with a pattern. -/
theorem validateBlock_spec {sat : Sat} (htag : sat.tagMode = false) (disk : Mem) (buffer address : Nat)
    {readBlockSize size : Nat} (hdvd : readBlockSize ∣ size) (p : Pattern) (random : Nat → Nat)
    (buf : Mem) :
    let s := validateBlock sat ⟨disk, buffer, address, readBlockSize, p, false⟩ size random buf
    s.blocks = 0 ∧ s.chunks.flatMap (fun c => List.range' c.1 c.2) = List.range size ∧
      s.found = ((chunksOf readBlockSize random 0 (size / readBlockSize) 0).map
        (chunkErrors disk address p)).sum := by
  intro s
  obtain ⟨hend, -, hchunks, hfound⟩ := readBlocks_spec htag (b :=
    ⟨disk, buffer, address, readBlockSize, p, false⟩) rfl random 0 ⟨buf, 0, size / readBlockSize, 0, 0, []⟩
  refine ⟨hend, ?_, hfound.trans (Nat.zero_add _)⟩
  rw [show s.chunks = _ from hchunks, List.nil_append, chunksOf_cover, Nat.div_mul_cancel hdvd,
    List.range_eq_range']

/-- The pattern from an offset in bytes is the pattern at the place of the chunk. -/
def InPlace (p : Pattern) (c : Nat × Nat) : Prop :=
  ∀ i < c.2 / 8, Sat.patternData p c.1 i = Sat.patternData p 0 (c.1 / 8 + i)

/-- The count of a chunk that is compared with the words of its place. -/
theorem chunkErrors_eq {disk : Mem} {address : Nat} {p : Pattern} {c : Nat × Nat} (h : InPlace p c) :
    chunkErrors disk address p c =
      Nat.count (fun i => disk (64 * address + (c.1 / 8 + i)) ≠ Sat.patternData p 0 (c.1 / 8 + i))
        (c.2 / 8) :=
  count_congr fun i hi => by rw [h i hi, Nat.add_assoc]

/-- The disk with an unchanged block on it. -/
def unchanged (address : Nat) (p : Pattern) : Mem := fun a => Sat.patternData p 0 (a - 64 * address)

theorem blockErrors_unchanged (address : Nat) (p : Pattern) (size : Nat) :
    blockErrors (unchanged address p) address p size = 0 := by
  rw [blockErrors, Nat.count_iff_forall_not]
  intro i _ hne
  exact hne (by rw [unchanged, Nat.add_sub_cancel_left])

/-- An unchanged chunk without errors is in place. -/
theorem inPlace_of_chunkErrors {address : Nat} {p : Pattern} {c : Nat × Nat}
    (h : chunkErrors (unchanged address p) address p c = 0) : InPlace p c := by
  rw [chunkErrors, Nat.count_iff_forall_not] at h
  intro i hi
  have hword := not_not.mp (h i hi)
  rw [unchanged, Nat.add_assoc, Nat.add_sub_cancel_left] at hword
  exact hword.symm

/-- The verdict on a block: the loop ends, has read each byte once, and has found the words of the
block that differ. -/
def RightVerdict (sat : Sat) (b : BlockRead) (size : Nat) (random : Nat → Nat) (buf : Mem) : Prop :=
  let s := validateBlock sat b size random buf
  s.blocks = 0 ∧ s.chunks.flatMap (fun c => List.range' c.1 c.2) = List.range size ∧
    s.found = blockErrors b.disk b.address b.pattern size

section Split

variable {sat : Sat} {p : Pattern} {readBlockSize size : Nat}

/-- A right verdict on the unchanged block. -/
theorem inPlace_of_rightVerdict (htag : sat.tagMode = false) {buffer address : Nat}
    (hdvd : readBlockSize ∣ size) {random : Nat → Nat} {buf : Mem}
    (h : RightVerdict sat ⟨unchanged address p, buffer, address, readBlockSize, p, false⟩ size random
      buf) : ∀ c ∈ chunksOf readBlockSize random 0 (size / readBlockSize) 0, InPlace p c := by
  have hspec := validateBlock_spec htag (unchanged address p) buffer address hdvd p random buf
  have hfound := h.2.2
  rw [hspec.2.2, blockErrors_unchanged, List.sum_eq_zero_iff_forall_eq_nat] at hfound
  exact fun c hc => inPlace_of_chunkErrors (hfound _ (List.mem_map_of_mem hc))

/-- A split is judged right on all disks when the pattern is in place in its chunks. -/
theorem rightVerdict_iff (htag : sat.tagMode = false) (buffer address : Nat)
    (hread : 8 ∣ readBlockSize) (hdvd : readBlockSize ∣ size) (random : Nat → Nat) (buf : Mem) :
    (∀ disk, RightVerdict sat ⟨disk, buffer, address, readBlockSize, p, false⟩ size random buf) ↔
      ∀ c ∈ chunksOf readBlockSize random 0 (size / readBlockSize) 0, InPlace p c := by
  have hspec (disk : Mem) := validateBlock_spec htag disk buffer address hdvd p random buf
  constructor
  · exact fun h => inPlace_of_rightVerdict htag hdvd (h (unchanged address p))
  · intro h disk
    obtain ⟨hend, hcover, hfound⟩ := hspec disk
    refine ⟨hend, hcover, ?_⟩
    have hsum := sum_chunksOf (P := fun i => disk (64 * address + i) ≠ Sat.patternData p 0 i) hread
      (Nat.dvd_zero 8) random 0 (size / readBlockSize)
    simp only [Nat.zero_div, Nat.zero_add, Nat.div_mul_cancel hdvd] at hsum
    rw [hfound, blockErrors, ← hsum]
    exact congrArg List.sum (List.map_congr_left fun c hc => chunkErrors_eq (h c hc))

/-- A chunk starts at a read block and stays in the block. -/
theorem mem_chunksOf {random : Nat → Nat} {k blocks bytesRead : Nat} {c : Nat × Nat}
    (hc : c ∈ chunksOf readBlockSize random k blocks bytesRead) :
    ∃ j < blocks, c.1 = bytesRead + j * readBlockSize ∧ c.2 ≤ (blocks - j) * readBlockSize := by
  induction blocks using Nat.strongRecOn generalizing k bytesRead with
  | ind n ih =>
      rw [chunksOf] at hc
      by_cases hzero : n = 0
      · rw [if_pos hzero] at hc
        cases hc
      · have hcurrent : random k % n + 1 ≤ n := Nat.mod_lt _ (by omega)
        rw [if_neg hzero, List.mem_cons] at hc
        obtain rfl | hc := hc
        · exact ⟨0, by omega, by simp, Nat.mul_le_mul_right _ hcurrent⟩
        · obtain ⟨j, hj, hstart, hlength⟩ := ih _ (by omega) hc
          refine ⟨random k % n + 1 + j, by omega, ?_, ?_⟩
          · rw [hstart, Nat.add_mul (random k % n + 1) j, Nat.add_assoc]
          · rwa [Nat.sub_add_eq]

/-- Each read block but the first starts a chunk that runs to the end, for some values of `random()`. -/
theorem exists_chunk {blocks j : Nat} (hpos : 0 < j) (hj : j < blocks) :
    ∃ random : Nat → Nat, (j * readBlockSize, (blocks - j) * readBlockSize) ∈
      chunksOf readBlockSize random 0 blocks 0 := by
  refine ⟨fun k => if k = 0 then j - 1 else blocks - j - 1, ?_⟩
  have hfirst : (j - 1) % blocks + 1 = j := by
    rw [Nat.mod_eq_of_lt (by omega)]
    omega
  have hsecond : (blocks - j - 1) % (blocks - j) + 1 = blocks - j := by
    rw [Nat.mod_eq_of_lt (by omega)]
    omega
  rw [chunksOf, if_neg (by omega), if_pos rfl, hfirst, Nat.zero_add, chunksOf, if_neg (by omega),
    if_neg (by omega), hsecond]
  simp

end Split

/-- **The split.** A split gets the right verdict on all disks if and only if the pattern is in place in
each of its chunks. All splits do if and only if the pattern is in place from each read block on. -/
theorem validate_split_iff (sat : Sat) (htag : sat.tagMode = false) (p : Pattern)
    (buffer address readBlockSize size : Nat) (hsector : 512 ∣ readBlockSize)
    (hdvd : readBlockSize ∣ size) (buf : Mem) :
    (∀ random : Nat → Nat,
      (∀ disk, RightVerdict sat ⟨disk, buffer, address, readBlockSize, p, false⟩ size random buf) ↔
        ∀ c ∈ chunksOf readBlockSize random 0 (size / readBlockSize) 0, InPlace p c) ∧
    ((∀ (random : Nat → Nat) disk,
      RightVerdict sat ⟨disk, buffer, address, readBlockSize, p, false⟩ size random buf) ↔
        ∀ j < size / readBlockSize, InPlace p (j * readBlockSize, size - j * readBlockSize)) := by
  have hread : 8 ∣ readBlockSize := (show 8 ∣ 512 by decide).trans hsector
  have hsplit (random : Nat → Nat) :=
    rightVerdict_iff (p := p) htag buffer address hread hdvd random buf
  have hrest (j : Nat) : (size / readBlockSize - j) * readBlockSize = size - j * readBlockSize := by
    rw [Nat.sub_mul, Nat.div_mul_cancel hdvd]
  refine ⟨hsplit, fun h j hj => ?_, fun h random => (hsplit random).mpr fun c hc => ?_⟩
  · obtain rfl | hpos := Nat.eq_zero_or_pos j
    · intro i _
      simp
    · obtain ⟨random, hmem⟩ := exists_chunk hpos hj
      rw [hrest] at hmem
      exact (hsplit random).mp (h random) _ hmem
  · obtain ⟨j, hj, hstart, hlength⟩ := mem_chunksOf hc
    rw [hrest] at hlength
    rw [Nat.zero_add] at hstart
    intro i hi
    rw [hstart]
    exact h j hj i (lt_of_lt_of_le hi (Nat.div_le_div_right hlength))

/-- A block of ones of two read blocks, read one at a time from a disk of zeros. -/
theorem validate_split_ones :
    RightVerdict (.small 1 0) ⟨fun _ => 0, 0, 0, 512, .ones, false⟩ 1024 (fun _ => 0) fun _ => 0 := by
  refine (validate_split_iff (.small 1 0) rfl .ones 0 0 512 1024 ⟨1, rfl⟩ ⟨2, rfl⟩ _).2.mpr ?_ _ _
  intro j _ i _
  simp only [Sat.patternData, Pattern.ones_pattern]

theorem walkingOnes_mem : walkingOnes ∈ patternArray := by decide

/-- Walking ones on a bus of 256 bits. -/
def wideOnes : Pattern := (Pattern.initializePattern walkingOnes walkingOnes_mem 256 false 1 0).1

/-- The unchanged block of wide ones has no word that differs, and its second read block fails. -/
theorem validate_split_wide :
    blockErrors (unchanged 0 wideOnes) 0 wideOnes 1024 = 0 ∧
      ¬RightVerdict (.small 1 0) ⟨unchanged 0 wideOnes, 0, 0, 512, wideOnes, false⟩ 1024 (fun _ => 0)
        fun _ => 0 := by
  refine ⟨blockErrors_unchanged 0 wideOnes 1024, fun h => ?_⟩
  have hplace := inPlace_of_rightVerdict rfl ⟨2, rfl⟩ h (512, 512) (by
    rw [chunksOf, if_neg (by decide), chunksOf, if_neg (by decide)]
    simp)
  exact absurd (hplace 0 (by decide)) (by decide +kernel)

/-! ## Written and read in one piece -/

/-- In one piece the block is compared with its pattern from the start. -/
theorem found_onePiece {sat : Sat} (htag : sat.tagMode = false) (disk : Mem) (buffer address : Nat)
    {readBlockSize size : Nat} (hdvd : readBlockSize ∣ size) (p : Pattern) (buf : Mem) :
    (validateBlock sat ⟨disk, buffer, address, readBlockSize, p, false⟩ size
      (fun _ => size / readBlockSize - 1) buf).found = blockErrors disk address p size := by
  rw [(validateBlock_spec htag disk buffer address hdvd p _ buf).2.2, chunksOf]
  split
  · next hzero =>
    have hsize : size = 0 := by rw [← Nat.div_mul_cancel hdvd, hzero, Nat.zero_mul]
    subst hsize
    rfl
  · next hpos =>
    have hwhole : (size / readBlockSize - 1) % (size / readBlockSize) + 1 = size / readBlockSize := by
      rw [Nat.mod_eq_of_lt (Nat.sub_one_lt hpos), Nat.sub_add_cancel (Nat.pos_of_ne_zero hpos)]
    rw [hwhole, Nat.sub_self, chunksOf, if_pos rfl, Nat.div_mul_cancel hdvd, List.map_singleton,
      List.sum_singleton]
    simp only [chunkErrors, blockErrors, Nat.zero_div, Nat.add_zero]

/-- A block of the units of its pattern has no errors once it is written. -/
theorem blockErrors_writeBlock {disk buf : Mem} {buffer address size : Nat} {p : Pattern}
    (hsize : 512 ∣ size) (h : ∀ i < size / 4, unitOf buf (2 * buffer + i) = p.pattern i) :
    blockErrors (writeBlock disk buf buffer address size) address p size = 0 := by
  obtain ⟨k, rfl⟩ := hsize
  rw [blockErrors, Nat.count_iff_forall_not]
  intro i hi hne
  refine hne ?_
  rw [writeBlock, writeWords_apply hi, word_eq_units buf, Nat.mul_add, h (2 * i) (by omega),
    Nat.add_assoc, h (2 * i + 1) (by omega)]
  rfl

/-- **The write.** Each 32-bit word of the buffer is that of the pattern, and the block is accepted when
it is read in one piece, if and only if a page was had or the pattern is zero in the second half. -/
theorem write_block_iff (sat : Sat) (htag : sat.tagMode = false) (disk buf pages : Mem)
    (buffer address readBlockSize size : Nat) (hsector : 512 ∣ size) (hlength : size ≤ sat.pageLength)
    (hdvd : readBlockSize ∣ size) (page : Option (Nat × Pattern)) (random : Pattern)
    (hpage : ∀ addr p, page = some (addr, p) → sat.PageIs pages addr p.pattern) :
    let w := fillBuffer buf pages buffer size page random
    ((∀ i < size / 4, unitOf w.1 (2 * buffer + i) = w.2.pattern i) ∧
      (validateBlock sat ⟨writeBlock disk w.1 buffer address size, buffer, address, readBlockSize, w.2,
        false⟩ size (fun _ => size / readBlockSize - 1) w.1).found = 0) ↔
      page.isSome ∨ ∀ i, size / 8 ≤ i → i < size / 4 → random.pattern i = 0 := by
  intro w
  have hunits : (∀ i < size / 4, unitOf w.1 (2 * buffer + i) = w.2.pattern i) ↔
      page.isSome ∨ ∀ i, size / 8 ≤ i → i < size / 4 → random.pattern i = 0 := by
    cases page with
    | none =>
        refine ⟨fun h => Or.inr fun i hge hlt => ?_, fun h i hi => ?_⟩
        · rw [← show w.2.pattern i = random.pattern i from rfl, ← h i hlt,
            unitOf_fillBuffer buf pages buffer hsector none random hlt]
          exact if_neg (by omega)
        · rw [unitOf_fillBuffer buf pages buffer hsector none random hi]
          have hzero := h.resolve_left (by decide)
          dsimp only
          split
          · rfl
          · exact (hzero i (by omega) hi).symm
    | some page =>
        refine ⟨fun _ => Or.inl rfl, fun _ i hi => ?_⟩
        rw [unitOf_fillBuffer buf pages buffer hsector (some page) random hi]
        exact hpage page.1 page.2 rfl i (by omega)
  refine ⟨fun h => hunits.mp h.1, fun h => ⟨hunits.mpr h, ?_⟩⟩
  rw [found_onePiece htag _ buffer address hdvd w.2 w.1]
  exact blockErrors_writeBlock hsector (hunits.mpr h)

/-- A block of a page of ones is accepted. -/
theorem write_block_ones :
    unitOf (fillBuffer (fun _ => 0) (fun _ => BitVec.allOnes 64) 0 512 (some (0, .ones)) .ones).1 127 =
      BitVec.allOnes 32 := by
  have hpage : ∀ addr p, some (0, Pattern.ones) = some (addr, p) →
      (Sat.small 1 0).PageIs (fun _ => BitVec.allOnes 64) addr p.pattern := by
    intro addr p heq u _
    cases heq
    rw [Pattern.ones_pattern]
    exact Sat.unitOf_allOnes _
  have h := (write_block_iff (.small 1 0) rfl (fun _ => 0) (fun _ => 0) (fun _ => BitVec.allOnes 64) 0 0 512 512
    ⟨1, rfl⟩ (by decide) ⟨1, rfl⟩ (some (0, .ones)) .ones hpage).mpr (Or.inl rfl)
  exact (h.1 127 (by decide)).trans (Pattern.ones_pattern 127)

/-- Without a page the second half of a block of ones stays zero. -/
theorem write_block_fallback :
    let w := fillBuffer (fun _ => 0) (fun _ => 0) 0 512 none .ones
    unitOf w.1 64 = 0 ∧ w.2.pattern 64 = BitVec.allOnes 32 :=
  ⟨unitOf_fillBuffer (fun _ => 0) (fun _ => 0) 0 ⟨1, rfl⟩ none .ones (show 64 < 512 / 4 by decide),
    Pattern.ones_pattern 64⟩

end StressAppTest.Disk
