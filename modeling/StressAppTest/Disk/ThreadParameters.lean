import StressAppTest.Disk.Placement

/-!
# The parameters of a `DiskThread`

`SetParameters` with the values of the command line, and what `DoWork`, `GetUnusedBlock`,
`WriteBlockToDisk` and `ValidateBlockOnDisk` divide by and how far they go into the block buffer. A
division by zero, a negative length and an access past the buffer stop the model.

`SetParameters` looks at multiples only. A segment of no sectors, a segment that is smaller than a
block, sizes below zero and blocks that are larger than the buffer pass it (`parameters_safe_iff`).

Numbers are exact integers; an overflow of a signed number is undefined in the source.
-/

namespace StressAppTest.Disk

/-! ## Checked operations -/

/-- What ends a function early: `refused` is a return of `false`, and `assertion` the end of the
program. -/
inductive Stop where
  | refused
  | assertion
  | divisionByZero
  | negativeSize
  | outOfBuffer
  deriving DecidableEq, Repr

def quot (a b : Int) : Except Stop Int := if b = 0 then .error .divisionByZero else .ok (a.tdiv b)

def rem (a b : Int) : Except Stop Int := if b = 0 then .error .divisionByZero else .ok (a.tmod b)

/-- An access to the first `size` bytes of the block buffer, which has `page_length` bytes. -/
def access (pageLength : Nat) (size : Int) : Except Stop Unit :=
  if size < 0 then .error .negativeSize
  else if (pageLength : Int) < size then .error .outOfBuffer
  else .ok ()

theorem bind_eq_ok {ε α β : Type} {x : Except ε α} {f : α → Except ε β} {b : β} :
    (x >>= f) = .ok b ↔ ∃ a, x = .ok a ∧ f a = .ok b := by
  cases x with
  | error e => exact ⟨nofun, nofun⟩
  | ok a => exact ⟨fun h => ⟨a, rfl, h⟩, by rintro ⟨_, ⟨⟩, h⟩; exact h⟩

theorem error_of_bind {ε α β : Type} {x : Except ε α} {f : α → Except ε β} {e : ε}
    (h : (x >>= f) = .error e) : x = .error e ∨ ∃ a, x = .ok a ∧ f a = .error e := by
  cases x with
  | error e' =>
      cases h
      exact Or.inl rfl
  | ok a => exact Or.inr ⟨a, rfl, h⟩

theorem quot_eq_ok {a b c : Int} : quot a b = .ok c ↔ b ≠ 0 ∧ a.tdiv b = c := by
  unfold quot
  split
  · next h => simp [h]
  · next h => simp [h]

theorem rem_eq_ok {a b c : Int} : rem a b = .ok c ↔ b ≠ 0 ∧ a.tmod b = c := by
  unfold rem
  split
  · next h => simp [h]
  · next h => simp [h]

theorem quot_eq_error {a b : Int} {e : Stop} (h : quot a b = .error e) : b = 0 := by
  unfold quot at h
  split at h
  · next hzero => exact hzero
  · cases h

theorem rem_eq_error {a b : Int} {e : Stop} (h : rem a b = .error e) : b = 0 := by
  unfold rem at h
  split at h
  · next hzero => exact hzero
  · cases h

theorem access_eq_ok {pageLength : Nat} {size : Int} {u : Unit} :
    access pageLength size = .ok u ↔ 0 ≤ size ∧ size ≤ pageLength := by
  unfold access
  split
  · simp
    omega
  · split
    · simp
      omega
    · simp
      omega

/-! ## `SetParameters` -/

structure DiskThread where
  readBlockSize : Int
  writeBlockSize : Int
  segmentSize : Int
  cacheSize : Int
  queueSize : Int
  blocksPerSegment : Int
  readThreshold : Int
  writeThreshold : Int
  nonDestructive : Int

/-- The constructor. -/
def DiskThread.construct : DiskThread where
  readBlockSize := 512
  writeBlockSize := 512
  segmentSize := -1
  cacheSize := 16 * 1024 * 1024
  queueSize := ((16 * 1024 * 1024 / 512) * 3) / 2
  blocksPerSegment := 32
  readThreshold := 100000
  writeThreshold := 100000
  nonDestructive := 0

/-- The arguments of `SetParameters`. -/
structure Arguments where
  readBlockSize : Int
  writeBlockSize : Int
  segmentSize : Int
  cacheSize : Int
  blocksPerSegment : Int
  readThreshold : Int
  writeThreshold : Int
  nonDestructive : Int

def setReadBlockSize (readBlockSize : Int) (t : DiskThread) : Except Stop DiskThread :=
  if readBlockSize = -1 then .ok t
  else if readBlockSize.tmod 512 ≠ 0 then .error .refused
  else .ok { t with readBlockSize := readBlockSize }

/-- Where no size is given the old one has to do, unless it is smaller than a read block. -/
def setWriteBlockSize (writeBlockSize : Int) (t : DiskThread) : Except Stop DiskThread :=
  if writeBlockSize ≠ -1 then
    if writeBlockSize.tmod 512 ≠ 0 then .error .refused
    else do
      let r ← rem writeBlockSize t.readBlockSize
      if r ≠ 0 then .error .refused else .ok { t with writeBlockSize := writeBlockSize }
  else if t.writeBlockSize < t.readBlockSize then .ok { t with writeBlockSize := t.readBlockSize }
  else do
    let r ← rem t.writeBlockSize t.readBlockSize
    if r ≠ 0 then .error .refused else .ok t

/-- The check of `blocks_per_segment` and of the two thresholds. -/
def setPositive (value old : Int) : Except Stop Int :=
  if value = -1 then .ok old else if value ≤ 0 then .error .refused else .ok value

def setSegmentSize (segmentSize old : Int) : Except Stop Int :=
  if segmentSize = -1 then .ok old
  else if segmentSize.tmod 512 ≠ 0 then .error .refused
  else .ok (segmentSize.tdiv 512)

/-- `cache_size_` is an `int`, the argument has 64 bits. -/
def setCacheSize (cacheSize old : Int) : Int := if cacheSize = -1 then old else cacheSize.bmod (2 ^ 32)

def setParameters (t : DiskThread) (a : Arguments) : Except Stop DiskThread := do
  let t ← setReadBlockSize a.readBlockSize t
  let t ← setWriteBlockSize a.writeBlockSize t
  let cacheSize := setCacheSize a.cacheSize t.cacheSize
  let blocksPerSegment ← setPositive a.blocksPerSegment t.blocksPerSegment
  let readThreshold ← setPositive a.readThreshold t.readThreshold
  let writeThreshold ← setPositive a.writeThreshold t.writeThreshold
  let segmentSize ← setSegmentSize a.segmentSize t.segmentSize
  let blocks ← quot cacheSize t.writeBlockSize
  return {
    readBlockSize := t.readBlockSize
    writeBlockSize := t.writeBlockSize
    segmentSize := segmentSize
    cacheSize := cacheSize
    queueSize := (blocks * 3).tdiv 2
    blocksPerSegment := blocksPerSegment
    readThreshold := readThreshold
    writeThreshold := writeThreshold
    nonDestructive := a.nonDestructive }

/-! ## `GetUnusedBlock` -/

/-- A pass of the loop up to the sector. -/
def trySector (p : Parameters) (segment random : Int) : Except Stop Int := do
  let numSectors ← quot p.writeBlockSize p.sectorSize
  let places ← quot (if p.segmentSize = -1 then p.deviceSectors else p.segmentSize) numSectors
  let place ← rem (random % 2 ^ 63) places
  return place * numSectors + if p.segmentSize = -1 then 0 else segment * p.segmentSize

/-- The loop. `used` are the addresses in the table. -/
def findSector (p : Parameters) (segment : Int) (random : Nat → Int) (used : Int → Bool) :
    Nat → Except Stop (Option Int)
  | 0 => .ok none
  | n + 1 => do
      let sector ← trySector p segment (random n)
      if p.fits segment sector && !used sector then return some sector
      else findSector p segment random used n

/-- The address of the block, if one is found in `kBlockRetry` passes. -/
def getUnusedBlock (p : Parameters) (segment : Int) (random : Nat → Int) (used : Int → Bool) :
    Except Stop (Option Int) :=
  if p.deviceSectors = 0 then .error .assertion else findSector p segment random used 100

/-! ## `WriteBlockToDisk` and `ValidateBlockOnDisk` -/

/-- The accesses of a write; `page` is the answer of `GetValid`. -/
def writeAccesses (pageLength : Nat) (size : Int) (page : Bool) : Except Stop Unit := do
  access pageLength size
  if page then access pageLength size else access pageLength (4 * size.tdiv 8)
  access pageLength size

/-- The loop of the read. `random() % blocks` is not reached with no blocks left. -/
def readAccesses (pageLength : Nat) (readBlockSize : Int) (random : Nat → Nat) (k blocks : Nat) :
    Except Stop Unit :=
  if blocks = 0 then .ok ()
  else do
    access pageLength ((random k % blocks + 1 : Nat) * readBlockSize)
    access pageLength ((random k % blocks + 1 : Nat) * readBlockSize)
    readAccesses pageLength readBlockSize random (k + 1) (blocks - (random k % blocks + 1))
termination_by blocks
decreasing_by omega

def validateAccesses (pageLength : Nat) (readBlockSize size : Int) (random : Nat → Nat) :
    Except Stop Unit := do
  let blocks ← quot size readBlockSize
  readAccesses pageLength readBlockSize random 0 blocks.toNat

/-! ## `DoWork` -/

/-- What decides the way of a block: the random numbers for its sector, the addresses in use,
`GetValid`, and the random numbers for its chunks. -/
structure Choices where
  randomSector : Nat → Int
  used : Int → Bool
  page : Bool
  randomChunk : Nat → Nat

namespace DiskThread

def numSegments (t : DiskThread) (deviceSectors : Int) : Except Stop Int :=
  if t.segmentSize = -1 then .ok 1
  else do
    let numSegments ← quot deviceSectors t.segmentSize
    let r ← rem deviceSectors t.segmentSize
    return if r ≠ 0 then numSegments + 1 else numSegments

/-- The parameters of the block table. -/
def table (t : DiskThread) (deviceSectors : Int) : Parameters :=
  ⟨512, t.writeBlockSize, deviceSectors, t.segmentSize⟩

/-- A block: it is placed, written unless nothing is written, and read in the read phase. -/
def workBlock (t : DiskThread) (deviceSectors : Int) (pageLength : Nat) (numSegments blockNum : Int)
    (c : Choices) : Except Stop Unit := do
  let round ← quot blockNum t.blocksPerSegment
  let segment ← rem round numSegments
  let found ← getUnusedBlock (t.table deviceSectors) segment c.randomSector c.used
  match found with
  | none => .ok ()
  | some _ => do
      if t.nonDestructive = 0 then writeAccesses pageLength t.writeBlockSize c.page
      validateAccesses pageLength t.readBlockSize t.writeBlockSize c.randomChunk

def workBlocks (t : DiskThread) (deviceSectors : Int) (pageLength : Nat) (numSegments : Int) :
    Int → List Choices → Except Stop Unit
  | _, [] => .ok ()
  | blockNum, c :: cs => do
      t.workBlock deviceSectors pageLength numSegments blockNum c
      t.workBlocks deviceSectors pageLength numSegments (blockNum + 1) cs

/-- `DoWork` from the first block on, for as many blocks as there are choices. -/
def doWork (t : DiskThread) (deviceSectors : Int) (pageLength : Nat) (cs : List Choices) :
    Except Stop Unit := do
  let numSegments ← t.numSegments deviceSectors
  t.workBlocks deviceSectors pageLength numSegments 0 cs

end DiskThread

/-! ## What `SetParameters` accepts -/

namespace Arguments

def readSize (a : Arguments) : Int := if a.readBlockSize = -1 then 512 else a.readBlockSize

def writeSize (a : Arguments) : Int :=
  if a.writeBlockSize = -1 then max 512 a.readSize else a.writeBlockSize

def cache (a : Arguments) : Int := setCacheSize a.cacheSize (16 * 1024 * 1024)

/-- The sectors of a segment, or the value for the whole device. -/
def segment (a : Arguments) : Int := if a.segmentSize = -1 then -1 else a.segmentSize.tdiv 512

end Arguments

/-- What is known of accepted arguments and of the thread. -/
structure Accepted (a : Arguments) (t : DiskThread) : Prop where
  readBlockSize : t.readBlockSize = a.readSize
  writeBlockSize : t.writeBlockSize = a.writeSize
  cacheSize : t.cacheSize = a.cache
  segmentSize : t.segmentSize = a.segment
  queueSize : t.queueSize = (a.cache.tdiv a.writeSize * 3).tdiv 2
  blocksPerSegment : 0 < t.blocksPerSegment
  readSize_ne : a.readSize ≠ 0
  writeSize_ne : a.writeSize ≠ 0
  sectors : 512 ∣ a.writeSize
  dvd : a.readSize ∣ a.writeSize

theorem setReadBlockSize_ok {readBlockSize : Int} {t t' : DiskThread}
    (h : setReadBlockSize readBlockSize t = .ok t') : (readBlockSize = -1 ∨ 512 ∣ readBlockSize) ∧
      t' = { t with readBlockSize := if readBlockSize = -1 then t.readBlockSize else readBlockSize } := by
  unfold setReadBlockSize at h
  split at h
  · next hdefault =>
    cases h
    exact ⟨Or.inl hdefault, by rw [if_pos hdefault]⟩
  · next hgiven =>
    split at h
    · cases h
    · next hsector =>
      cases h
      exact ⟨Or.inr (Int.dvd_of_tmod_eq_zero (not_not.mp hsector)), by rw [if_neg hgiven]⟩

theorem setWriteBlockSize_ok {writeBlockSize : Int} {t t' : DiskThread}
    (h : setWriteBlockSize writeBlockSize t = .ok t') :
    (writeBlockSize = -1 ∨ 512 ∣ writeBlockSize) ∧
      t' = { t with writeBlockSize :=
        if writeBlockSize = -1 then max t.writeBlockSize t.readBlockSize else writeBlockSize } ∧
      t.readBlockSize ∣ t'.writeBlockSize ∧
      (t.readBlockSize ≠ 0 ∨ t.writeBlockSize < t.readBlockSize) := by
  unfold setWriteBlockSize at h
  split at h
  · next hgiven =>
    split at h
    · cases h
    · next hsector =>
      obtain ⟨r, hrem, h⟩ := bind_eq_ok.mp h
      obtain ⟨hzero, rfl⟩ := rem_eq_ok.mp hrem
      split at h
      · cases h
      · next hr =>
        cases h
        exact ⟨Or.inr (Int.dvd_of_tmod_eq_zero (not_not.mp hsector)), by rw [if_neg hgiven],
          Int.dvd_of_tmod_eq_zero (not_not.mp hr), Or.inl hzero⟩
  · next hdefault =>
    rw [not_not] at hdefault
    split at h
    · next hlt =>
      cases h
      exact ⟨Or.inl hdefault, by rw [if_pos hdefault, max_eq_right hlt.le], dvd_refl _, Or.inr hlt⟩
    · next hge =>
      obtain ⟨r, hrem, h⟩ := bind_eq_ok.mp h
      obtain ⟨hzero, rfl⟩ := rem_eq_ok.mp hrem
      split at h
      · cases h
      · next hr =>
        cases h
        exact ⟨Or.inl hdefault, by rw [if_pos hdefault, max_eq_left (not_lt.mp hge)],
          Int.dvd_of_tmod_eq_zero (not_not.mp hr), Or.inl hzero⟩

theorem setPositive_pos {value old value' : Int} (hold : 0 < old)
    (h : setPositive value old = .ok value') : 0 < value' := by
  unfold setPositive at h
  split at h
  · cases h
    exact hold
  · split at h
    · cases h
    · cases h
      omega

theorem setSegmentSize_ok {segmentSize old segmentSize' : Int}
    (h : setSegmentSize segmentSize old = .ok segmentSize') :
    segmentSize' = if segmentSize = -1 then old else segmentSize.tdiv 512 := by
  unfold setSegmentSize at h
  split at h
  · next hdefault =>
    cases h
    rw [if_pos hdefault]
  · next hgiven =>
    split at h
    · cases h
    · cases h
      rw [if_neg hgiven]

/-- The spec of `SetParameters` on a new thread. -/
theorem accepted_of_setParameters {a : Arguments} {t : DiskThread}
    (h : setParameters .construct a = .ok t) : Accepted a t := by
  obtain ⟨t1, hread, h⟩ := bind_eq_ok.mp h
  obtain ⟨t2, hwrite, h⟩ := bind_eq_ok.mp h
  obtain ⟨blocksPerSegment, hblocks, h⟩ := bind_eq_ok.mp h
  obtain ⟨readThreshold, -, h⟩ := bind_eq_ok.mp h
  obtain ⟨writeThreshold, -, h⟩ := bind_eq_ok.mp h
  obtain ⟨segmentSize, hsegment, h⟩ := bind_eq_ok.mp h
  obtain ⟨blocks, hquot, h⟩ := bind_eq_ok.mp h
  cases h
  obtain ⟨hreadSector, rfl⟩ := setReadBlockSize_ok hread
  obtain ⟨hwriteSector, rfl, hdvd, hzero⟩ := setWriteBlockSize_ok hwrite
  obtain ⟨hwriteZero, rfl⟩ := quot_eq_ok.mp hquot
  have hreadSize : (512 : Int) ∣ a.readSize := by
    unfold Arguments.readSize
    split
    · exact dvd_refl _
    · next hgiven => exact hreadSector.resolve_left hgiven
  refine
    { readBlockSize := rfl
      writeBlockSize := rfl
      cacheSize := rfl
      segmentSize := setSegmentSize_ok hsegment
      queueSize := rfl
      blocksPerSegment := setPositive_pos (show (0 : Int) < 32 by decide) hblocks
      readSize_ne := hzero.elim id fun hlt => ?_
      writeSize_ne := hwriteZero
      sectors := ?_
      dvd := hdvd }
  · have hpos : 512 < a.readSize := hlt
    omega
  · unfold Arguments.writeSize
    split
    · rcases max_choice 512 a.readSize with hmax | hmax
      · rw [hmax]
      · rw [hmax]
        exact hreadSize
    · next hgiven => exact hwriteSector.resolve_left hgiven

theorem setReadBlockSize_error {readBlockSize : Int} {t : DiskThread} {e : Stop}
    (h : setReadBlockSize readBlockSize t = .error e) : e = .refused := by
  unfold setReadBlockSize at h
  split at h
  · cases h
  · split at h <;> cases h
    rfl

theorem setWriteBlockSize_error {writeBlockSize : Int} {t : DiskThread} {e : Stop}
    (h : setWriteBlockSize writeBlockSize t = .error e) : e = .refused ∨ t.readBlockSize = 0 := by
  unfold setWriteBlockSize at h
  split at h
  · split at h
    · cases h
      exact Or.inl rfl
    · obtain hrem | ⟨r, -, h⟩ := error_of_bind h
      · exact Or.inr (rem_eq_error hrem)
      · split at h <;> cases h
        exact Or.inl rfl
  · split at h
    · cases h
    · obtain hrem | ⟨r, -, h⟩ := error_of_bind h
      · exact Or.inr (rem_eq_error hrem)
      · split at h <;> cases h
        exact Or.inl rfl

theorem setPositive_error {value old : Int} {e : Stop} (h : setPositive value old = .error e) :
    e = .refused := by
  unfold setPositive at h
  split at h
  · cases h
  · split at h <;> cases h
    rfl

theorem setSegmentSize_error {segmentSize old : Int} {e : Stop}
    (h : setSegmentSize segmentSize old = .error e) : e = .refused := by
  unfold setSegmentSize at h
  split at h
  · cases h
  · split at h <;> cases h
    rfl

/-- `SetParameters` refuses, or it divides by a size that is zero. -/
theorem setParameters_error {a : Arguments} {e : Stop}
    (h : setParameters .construct a = .error e) :
    e = .refused ∨ a.readSize = 0 ∨ a.writeSize = 0 := by
  obtain h | ⟨t1, hread, h⟩ := error_of_bind h
  · exact Or.inl (setReadBlockSize_error h)
  obtain ⟨-, rfl⟩ := setReadBlockSize_ok hread
  obtain h | ⟨t2, hwrite, h⟩ := error_of_bind h
  · exact (setWriteBlockSize_error h).imp_right Or.inl
  obtain ⟨-, rfl, -⟩ := setWriteBlockSize_ok hwrite
  obtain h | ⟨blocksPerSegment, -, h⟩ := error_of_bind h
  · exact Or.inl (setPositive_error h)
  obtain h | ⟨readThreshold, -, h⟩ := error_of_bind h
  · exact Or.inl (setPositive_error h)
  obtain h | ⟨writeThreshold, -, h⟩ := error_of_bind h
  · exact Or.inl (setPositive_error h)
  obtain h | ⟨segmentSize, -, h⟩ := error_of_bind h
  · exact Or.inl (setSegmentSize_error h)
  obtain h | ⟨blocks, -, h⟩ := error_of_bind h
  · exact Or.inr (Or.inr (quot_eq_error h))
  · cases h

/-! ## Blocks of good sizes -/

theorem trySector_ok {p : Parameters} (hsector : p.sectorSize ≠ 0) (hnum : p.numSectors ≠ 0)
    (hplaces : (if p.segmentSize = -1 then p.deviceSectors else p.segmentSize).tdiv p.numSectors ≠ 0)
    (segment random : Int) : trySector p segment random = .ok (p.sector segment random) := by
  rw [trySector]
  refine bind_eq_ok.mpr ⟨p.numSectors, quot_eq_ok.mpr ⟨hsector, rfl⟩, ?_⟩
  refine bind_eq_ok.mpr ⟨_, quot_eq_ok.mpr ⟨hnum, rfl⟩, ?_⟩
  refine bind_eq_ok.mpr ⟨_, rem_eq_ok.mpr ⟨hplaces, rfl⟩, ?_⟩
  rw [Parameters.sector]
  split
  · rw [Int.add_zero]
    rfl
  · rfl

theorem trySector_places {p : Parameters} {segment random sector : Int}
    (h : trySector p segment random = .ok sector) :
    (if p.segmentSize = -1 then p.deviceSectors else p.segmentSize).tdiv p.numSectors ≠ 0 := by
  obtain ⟨numSectors, hnum, h⟩ := bind_eq_ok.mp h
  obtain ⟨-, rfl⟩ := quot_eq_ok.mp hnum
  obtain ⟨places, hplaces, h⟩ := bind_eq_ok.mp h
  obtain ⟨-, rfl⟩ := quot_eq_ok.mp hplaces
  obtain ⟨place, hplace, -⟩ := bind_eq_ok.mp h
  exact (rem_eq_ok.mp hplace).1

theorem sector_nonneg {p : Parameters} (hnum : 0 ≤ p.numSectors)
    (hsize : p.segmentSize = -1 ∨ 0 ≤ p.segmentSize) {segment : Int} (hsegment : 0 ≤ segment)
    (random : Int) : 0 ≤ p.sector segment random := by
  have hrandom : 0 ≤ random % 2 ^ 63 := Int.emod_nonneg random (by norm_num)
  rw [Parameters.sector]
  split
  · exact Int.mul_nonneg (Int.tmod_nonneg _ hrandom) hnum
  · next hne =>
    exact Int.add_nonneg (Int.mul_nonneg (Int.tmod_nonneg _ hrandom) hnum)
      (Int.mul_nonneg hsegment (hsize.resolve_left hne))

/-- The loop ends, and a block that it finds lies on the device. -/
theorem findSector_ok {p : Parameters} {segment : Int}
    (htry : ∀ random, trySector p segment random = .ok (p.sector segment random))
    (hsector : ∀ random, 0 ≤ p.sector segment random) (random : Nat → Int) (used : Int → Bool)
    (n : Nat) : ∃ found, findSector p segment random used n = .ok found ∧
      (found.isSome → p.numSectors ≤ p.deviceSectors) := by
  induction n with
  | zero => exact ⟨none, rfl, nofun⟩
  | succ n ih =>
      by_cases hgood : p.fits segment (p.sector segment (random n)) &&
        !used (p.sector segment (random n))
      · refine ⟨some (p.sector segment (random n)), ?_, fun _ => ?_⟩
        · exact bind_eq_ok.mpr ⟨_, htry _, if_pos hgood⟩
        · rw [Bool.and_eq_true, Parameters.fits, Bool.and_eq_true, decide_eq_true_eq] at hgood
          have hnonneg := hsector (random n)
          omega
      · obtain ⟨found, hfind, hdevice⟩ := ih
        exact ⟨found, bind_eq_ok.mpr ⟨_, htry _, (if_neg hgood).trans hfind⟩, hdevice⟩

theorem writeAccesses_ok {pageLength : Nat} {size : Int} (hnonneg : 0 ≤ size)
    (hlength : size ≤ pageLength) (page : Bool) : writeAccesses pageLength size page = .ok () := by
  have hwhole : access pageLength size = .ok () := access_eq_ok.mpr ⟨hnonneg, hlength⟩
  have hhalf : access pageLength (4 * size.tdiv 8) = .ok () := by
    rw [Int.tdiv_eq_ediv_of_nonneg hnonneg]
    exact access_eq_ok.mpr (by omega)
  cases page with
  | true => exact bind_eq_ok.mpr ⟨(), hwhole, bind_eq_ok.mpr ⟨(), hwhole, hwhole⟩⟩
  | false => exact bind_eq_ok.mpr ⟨(), hwhole, bind_eq_ok.mpr ⟨(), hhalf, hwhole⟩⟩

theorem readAccesses_ok {pageLength : Nat} {readBlockSize : Int} (hread : 0 ≤ readBlockSize)
    (random : Nat → Nat) (k blocks : Nat) (hlength : blocks * readBlockSize ≤ pageLength) :
    readAccesses pageLength readBlockSize random k blocks = .ok () := by
  induction blocks using Nat.strongRecOn generalizing k with
  | ind n ih =>
      rw [readAccesses]
      by_cases hzero : n = 0
      · rw [if_pos hzero]
      · have hcurrent : random k % n + 1 ≤ n := Nat.mod_lt _ (by omega)
        have hchunk (m : Nat) (hm : m ≤ n) : (m : Int) * readBlockSize ≤ pageLength :=
          (Int.mul_le_mul_of_nonneg_right (by omega) hread).trans hlength
        have haccess : access pageLength ((random k % n + 1 : Nat) * readBlockSize) = .ok () :=
          access_eq_ok.mpr ⟨Int.mul_nonneg (by omega) hread, hchunk _ hcurrent⟩
        rw [if_neg hzero]
        exact bind_eq_ok.mpr ⟨(), haccess, bind_eq_ok.mpr ⟨(), haccess,
          ih _ (by omega) _ (hchunk _ (by omega))⟩⟩

theorem validateAccesses_ok {pageLength : Nat} {readBlockSize size : Int} (hread : 0 < readBlockSize)
    (hsize : 0 ≤ size) (hdvd : readBlockSize ∣ size) (hlength : size ≤ pageLength)
    (random : Nat → Nat) : validateAccesses pageLength readBlockSize size random = .ok () := by
  refine bind_eq_ok.mpr ⟨_, quot_eq_ok.mpr ⟨by omega, rfl⟩, readAccesses_ok hread.le random 0 _ ?_⟩
  rw [Int.toNat_of_nonneg (Int.tdiv_nonneg hsize hread.le), Int.tdiv_mul_cancel hdvd]
  exact hlength

/-- A block that may be read in one piece fits the buffer. -/
theorem size_le_of_validateAccesses {pageLength : Nat} {readBlockSize size : Int}
    (hread : 0 < readBlockSize) (hsize : 0 < size) (hdvd : readBlockSize ∣ size)
    (h : validateAccesses pageLength readBlockSize size
      (fun _ => (size.tdiv readBlockSize).toNat - 1) = .ok ()) : size ≤ pageLength := by
  obtain ⟨blocks, hquot, h⟩ := bind_eq_ok.mp h
  obtain ⟨-, rfl⟩ := quot_eq_ok.mp hquot
  have hblocks : 0 < (size.tdiv readBlockSize).toNat := by
    have hcancel := Int.tdiv_mul_cancel hdvd
    have hnonneg := Int.tdiv_nonneg hsize.le hread.le
    rcases Int.lt_or_eq_of_le hnonneg with hpos | hzero
    · omega
    · rw [← hzero, Int.zero_mul] at hcancel
      omega
  rw [readAccesses, if_neg (by omega)] at h
  obtain ⟨_, haccess, _⟩ := bind_eq_ok.mp h
  have hle := (access_eq_ok.mp haccess).2
  rw [Nat.mod_eq_of_lt (by omega), Nat.sub_add_cancel hblocks,
    Int.toNat_of_nonneg (Int.tdiv_nonneg hsize.le hread.le), Int.tdiv_mul_cancel hdvd] at hle
  exact hle

/-! ## Safe parameters -/

def Arguments.numSectors (a : Arguments) : Int := a.writeSize.tdiv 512

/-- The sizes are positive. The device, or a segment, has room for a block, and so does the buffer
unless the device has not. -/
structure Arguments.Fit (a : Arguments) (deviceSectors : Int) (pageLength : Nat) : Prop where
  readSize : 0 < a.readSize
  writeSize : 0 < a.writeSize
  cache : 0 ≤ a.cache
  room : (a.segmentSize = -1 ∧ a.numSectors ≤ deviceSectors ∧ a.writeSize ≤ pageLength) ∨
    (a.segmentSize ≠ -1 ∧ a.numSectors ≤ a.segmentSize.tdiv 512 ∧
      (a.writeSize ≤ pageLength ∨ deviceSectors < a.numSectors))

/-- No size is negative. -/
structure NonNegative (a : Arguments) (t : DiskThread) : Prop where
  readBlockSize : 0 ≤ t.readBlockSize
  writeBlockSize : 0 ≤ t.writeBlockSize
  cacheSize : 0 ≤ t.cacheSize
  queueSize : 0 ≤ t.queueSize
  segmentSize : a.segmentSize ≠ -1 → 0 ≤ t.segmentSize

/-- `SetParameters` returns `true`, and nothing stops it or any run of `DoWork`. -/
def Safe (a : Arguments) (deviceSectors : Int) (pageLength : Nat) : Prop :=
  ∃ t, setParameters .construct a = .ok t ∧ NonNegative a t ∧
    ∀ cs, t.doWork deviceSectors pageLength cs = .ok ()

section Accepted

variable {a : Arguments} {t : DiskThread} {deviceSectors : Int} {pageLength : Nat}

theorem Accepted.numSectors (h : Accepted a t) : (t.table deviceSectors).numSectors = a.numSectors := by
  rw [Parameters.numSectors, DiskThread.table, h.writeBlockSize, Arguments.numSectors]

theorem Accepted.numSectors_pos (h : Accepted a t) (hwrite : 0 < a.writeSize) : 0 < a.numSectors := by
  rw [Arguments.numSectors, Int.tdiv_eq_ediv_of_nonneg hwrite.le]
  have hsectors := h.sectors
  omega

/-- Where there is room for a block, the divisor of the random number is not zero. -/
theorem tdiv_ne_zero {num size : Int} (hnum : 0 < num) (hle : num ≤ size) : size.tdiv num ≠ 0 := by
  rw [Int.tdiv_eq_ediv_of_nonneg (by omega)]
  have hpos := Int.ediv_le_ediv hnum hle
  rw [Int.ediv_self (by omega)] at hpos
  omega

theorem le_of_tdiv_ne_zero {num size : Int} (hsize : 0 ≤ size) (h : size.tdiv num ≠ 0) :
    num ≤ size := by
  by_contra hlt
  exact h (Int.tdiv_eq_zero_of_lt hsize (not_le.mp hlt))

theorem NonNegative.of_fit (h : Accepted a t) (hfit : a.Fit deviceSectors pageLength) :
    NonNegative a t where
  readBlockSize := h.readBlockSize ▸ hfit.readSize.le
  writeBlockSize := h.writeBlockSize ▸ hfit.writeSize.le
  cacheSize := h.cacheSize ▸ hfit.cache
  queueSize := by
    rw [h.queueSize]
    have hblocks := Int.tdiv_nonneg hfit.cache hfit.writeSize.le
    exact Int.tdiv_nonneg (by omega) (by omega)
  segmentSize hgiven := by
    have hroom := (hfit.room.resolve_left fun hwhole => hgiven hwhole.1).2.1
    have hpos := h.numSectors_pos hfit.writeSize
    rw [h.segmentSize, Arguments.segment, if_neg hgiven]
    omega

theorem numSegments_ok (h : Accepted a t) (hfit : a.Fit deviceSectors pageLength)
    (hdevice : 0 < deviceSectors) : ∃ n, t.numSegments deviceSectors = .ok n ∧ 0 < n := by
  rw [DiskThread.numSegments, h.segmentSize]
  by_cases hwhole : a.segment = -1
  · exact ⟨1, if_pos hwhole, by decide⟩
  · have hpos := h.numSectors_pos hfit.writeSize
    have hsegment : 0 < a.segment := by
      rcases hfit.room with ⟨hsize, -⟩ | ⟨hgiven, hroom, -⟩
      · exact absurd (if_pos hsize) hwhole
      · rw [Arguments.segment, if_neg hgiven]
        omega
    rw [if_neg hwhole]
    refine ⟨_, bind_eq_ok.mpr ⟨_, quot_eq_ok.mpr ⟨by omega, rfl⟩,
      bind_eq_ok.mpr ⟨_, rem_eq_ok.mpr ⟨by omega, rfl⟩, rfl⟩⟩, ?_⟩
    rw [Int.tdiv_eq_ediv_of_nonneg hdevice.le, Int.tmod_eq_emod_of_nonneg hdevice.le]
    have hquot := Int.ediv_nonneg hdevice.le hsegment.le
    split
    · omega
    · next hrem =>
      have hsum := Int.emod_add_mul_ediv deviceSectors a.segment
      rw [not_not.mp hrem, Int.zero_add] at hsum
      rcases Int.lt_or_eq_of_le hquot with hlt | hzero
      · exact hlt
      · rw [← hzero, Int.mul_zero] at hsum
        omega

/-- A block of good sizes, in any segment. -/
theorem workBlock_ok (h : Accepted a t) (hfit : a.Fit deviceSectors pageLength)
    (hdevice : 0 < deviceSectors) {numSegments blockNum : Int} (hsegments : 0 < numSegments)
    (hblock : 0 ≤ blockNum) (c : Choices) :
    t.workBlock deviceSectors pageLength numSegments blockNum c = .ok () := by
  have hpos := h.numSectors_pos hfit.writeSize
  have hnum : (t.table deviceSectors).numSectors = a.numSectors := h.numSectors
  have hsize : (t.table deviceSectors).segmentSize = a.segment := h.segmentSize
  have hsegment : 0 ≤ (blockNum.tdiv t.blocksPerSegment).tmod numSegments :=
    Int.tmod_nonneg _ (Int.tdiv_nonneg hblock h.blocksPerSegment.le)
  have hplaces : (if a.segment = -1 then deviceSectors else a.segment).tdiv a.numSectors ≠ 0 ∧
      (a.segment = -1 ∨ 0 ≤ a.segment) := by
    rcases hfit.room with ⟨hwhole, hroom, -⟩ | ⟨hgiven, hroom, -⟩
    · rw [Arguments.segment, if_pos hwhole, if_pos rfl]
      exact ⟨tdiv_ne_zero hpos hroom, Or.inl rfl⟩
    · rw [Arguments.segment, if_neg hgiven, if_neg (by omega)]
      exact ⟨tdiv_ne_zero hpos hroom, Or.inr (by omega)⟩
  obtain ⟨found, hfind, hfits⟩ := findSector_ok (p := t.table deviceSectors)
    (trySector_ok (by decide : (512 : Int) ≠ 0) (by omega) (by rw [hsize, hnum]; exact hplaces.1) _)
    (sector_nonneg (by omega) (by rw [hsize]; exact hplaces.2) hsegment) c.randomSector c.used 100
  refine bind_eq_ok.mpr ⟨_, quot_eq_ok.mpr ⟨by have := h.blocksPerSegment; omega, rfl⟩, ?_⟩
  refine bind_eq_ok.mpr ⟨_, rem_eq_ok.mpr ⟨by omega, rfl⟩, ?_⟩
  refine bind_eq_ok.mpr ⟨found, ?_, ?_⟩
  · exact (if_neg (show deviceSectors ≠ 0 by omega)).trans hfind
  · cases found with
    | none => rfl
    | some sector =>
        have hlength : a.writeSize ≤ pageLength := by
          have hdev : a.numSectors ≤ deviceSectors := hnum ▸ hfits rfl
          rcases hfit.room with ⟨-, -, hbuffer⟩ | ⟨-, -, hbuffer⟩
          · exact hbuffer
          · exact hbuffer.resolve_right (by omega)
        have hvalidate := validateAccesses_ok hfit.readSize hfit.writeSize.le h.dvd hlength c.randomChunk
        rw [← h.readBlockSize, ← h.writeBlockSize] at hvalidate
        dsimp only
        split
        · have hwrite := writeAccesses_ok hfit.writeSize.le hlength c.page
          rw [← h.writeBlockSize] at hwrite
          exact bind_eq_ok.mpr ⟨(), hwrite, hvalidate⟩
        · exact hvalidate

theorem workBlocks_ok (h : Accepted a t) (hfit : a.Fit deviceSectors pageLength)
    (hdevice : 0 < deviceSectors) {numSegments : Int} (hsegments : 0 < numSegments)
    (cs : List Choices) {blockNum : Int} (hblock : 0 ≤ blockNum) :
    t.workBlocks deviceSectors pageLength numSegments blockNum cs = .ok () := by
  induction cs generalizing blockNum with
  | nil => rfl
  | cons c cs ih =>
      exact bind_eq_ok.mpr ⟨(), workBlock_ok h hfit hdevice hsegments hblock c, ih (by omega)⟩

/-- The choices for a block at the start of the device, read in one piece. -/
def firstBlock (a : Arguments) : Choices :=
  ⟨fun _ => 0, fun _ => false, true, fun _ => (a.writeSize.tdiv a.readSize).toNat - 1⟩

/-- The first sector is tried first. -/
theorem sector_zero (p : Parameters) : p.sector 0 0 = 0 := by
  rw [Parameters.sector]
  split <;> simp

/-- In a run with one block the random number is divided by a number of places that is not zero. If the
block fits the device and the segment it is read in one piece. -/
theorem room_of_doWork (h : Accepted a t) (hread : 0 < a.readSize) (hwrite : 0 < a.writeSize)
    (hrun : t.doWork deviceSectors pageLength [firstBlock a] = .ok ()) :
    (if a.segment = -1 then deviceSectors else a.segment).tdiv a.numSectors ≠ 0 ∧
      (a.numSectors ≤ deviceSectors → a.segment = -1 ∨ a.numSectors ≤ a.segment →
        a.writeSize ≤ pageLength) := by
  have hnum : (t.table deviceSectors).numSectors = a.numSectors := h.numSectors
  have hpos := h.numSectors_pos hwrite
  obtain ⟨numSegments, -, hblocks⟩ := bind_eq_ok.mp hrun
  obtain ⟨_, hblock, _⟩ := bind_eq_ok.mp hblocks
  obtain ⟨round, hround, hblock⟩ := bind_eq_ok.mp hblock
  obtain ⟨-, rfl⟩ := quot_eq_ok.mp hround
  obtain ⟨segment, hsegment, hblock⟩ := bind_eq_ok.mp hblock
  obtain ⟨-, rfl⟩ := rem_eq_ok.mp hsegment
  rw [Int.zero_tdiv, Int.zero_tmod] at hblock
  obtain ⟨found, hfound, hblock⟩ := bind_eq_ok.mp hblock
  rw [getUnusedBlock] at hfound
  split at hfound
  · cases hfound
  obtain ⟨sector, hsector, hfound⟩ := bind_eq_ok.mp hfound
  have hplaces := trySector_places hsector
  have htry := trySector_ok (p := t.table deviceSectors) (by decide : (512 : Int) ≠ 0) (by omega)
    hplaces 0 0
  rw [hnum, DiskThread.table, h.segmentSize] at hplaces
  refine ⟨hplaces, fun hdevice hsize => ?_⟩
  rw [sector_zero] at htry
  obtain rfl : sector = 0 := Except.ok.inj (hsector.symm.trans htry)
  -- the first try succeeds
  have hfits : (t.table deviceSectors).fits 0 0 = true := by
    rw [Parameters.fits, hnum, DiskThread.table, h.segmentSize, Bool.and_eq_true, Bool.or_eq_true,
      decide_eq_true_eq, decide_eq_true_eq, beq_iff_eq]
    dsimp only
    omega
  have hfree : (t.table deviceSectors).fits 0 0 && !(firstBlock a).used 0 := by
    rw [hfits]
    rfl
  rw [if_pos hfree] at hfound
  cases hfound
  have hvalidate : validateAccesses pageLength t.readBlockSize t.writeBlockSize
      (firstBlock a).randomChunk = .ok () := by
    dsimp only at hblock
    split at hblock
    · obtain ⟨_, _, hread⟩ := bind_eq_ok.mp hblock
      exact hread
    · exact hblock
  rw [h.readBlockSize, h.writeBlockSize] at hvalidate
  exact size_le_of_validateAccesses hread hwrite h.dvd hvalidate

end Accepted

/-- **Accepted parameters.** If `SetParameters` does not return `false` and the device passes the
assertion on its size, no division by zero, no negative size and no access past the buffer occurs if
and only if the sizes are positive and there is room for a block. -/
theorem parameters_safe_iff (a : Arguments) (deviceSectors : Int) (pageLength : Nat)
    (haccepted : setParameters .construct a ≠ .error .refused)
    (hassert : deviceSectors * 512 > 3 * a.cache) :
    Safe a deviceSectors pageLength ↔ a.Fit deviceSectors pageLength := by
  constructor
  · rintro ⟨t, hset, hsizes, hrun⟩
    have h := accepted_of_setParameters hset
    have hread : 0 < a.readSize :=
      lt_of_le_of_ne (h.readBlockSize ▸ hsizes.readBlockSize) h.readSize_ne.symm
    have hwrite : 0 < a.writeSize :=
      lt_of_le_of_ne (h.writeBlockSize ▸ hsizes.writeBlockSize) h.writeSize_ne.symm
    have hcache : 0 ≤ a.cache := h.cacheSize ▸ hsizes.cacheSize
    obtain ⟨hplaces, hlength⟩ := room_of_doWork h hread hwrite (hrun [firstBlock a])
    refine ⟨hread, hwrite, hcache, ?_⟩
    by_cases hwhole : a.segmentSize = -1
    · have hsegment : a.segment = -1 := if_pos hwhole
      rw [if_pos hsegment] at hplaces
      have hroom := le_of_tdiv_ne_zero (by omega) hplaces
      exact Or.inl ⟨hwhole, hroom, hlength hroom (Or.inl hsegment)⟩
    · have hsegment : a.segment = a.segmentSize.tdiv 512 := if_neg hwhole
      have hnonneg : 0 ≤ a.segment := h.segmentSize ▸ hsizes.segmentSize hwhole
      rw [if_neg (by omega)] at hplaces
      have hroom := le_of_tdiv_ne_zero hnonneg hplaces
      refine Or.inr ⟨hwhole, hsegment ▸ hroom, ?_⟩
      by_cases hdevice : a.numSectors ≤ deviceSectors
      · exact Or.inl (hlength hdevice (Or.inr hroom))
      · exact Or.inr (not_le.mp hdevice)
  · intro hfit
    have hcache := hfit.cache
    cases hset : setParameters .construct a with
    | error e =>
        obtain rfl | hzero | hzero := setParameters_error hset
        · exact absurd hset haccepted
        · exact absurd hzero hfit.readSize.ne'
        · exact absurd hzero hfit.writeSize.ne'
    | ok t =>
        have h := accepted_of_setParameters hset
        refine ⟨t, hset, .of_fit h hfit, fun cs => ?_⟩
        obtain ⟨n, hsegments, hn⟩ := numSegments_ok h hfit (by omega)
        exact bind_eq_ok.mpr ⟨n, hsegments, workBlocks_ok h hfit (by omega) hn cs (by omega)⟩

/-- The defaults, on a device of 64 MiB with pages of 1 MiB. -/
theorem parameters_safe_default : Safe ⟨512, -1, -1, -1, -1, -1, -1, 0⟩ 131072 1048576 :=
  (parameters_safe_iff ⟨512, -1, -1, -1, -1, -1, -1, 0⟩ 131072 1048576 nofun (by decide)).mpr
    ⟨by decide, by decide, by decide, Or.inl (by decide)⟩

/-- Accepted: segments of no sectors, which `DoWork` divides by, and blocks of two pages, which go past
the buffer. -/
theorem parameters_unsafe :
    (∃ t, setParameters .construct ⟨512, -1, 0, -1, -1, -1, -1, 0⟩ = .ok t ∧
      131072 * 512 > 3 * t.cacheSize ∧ t.doWork 131072 1048576 [] = .error .divisionByZero) ∧
    ∃ t, setParameters .construct ⟨512, 2097152, -1, -1, -1, -1, -1, 0⟩ = .ok t ∧
      131072 * 512 > 3 * t.cacheSize ∧ t.doWork 131072 1048576
        [⟨fun _ => 0, fun _ => false, true, fun _ => 0⟩] = .error .outOfBuffer :=
  ⟨⟨_, rfl, by decide, rfl⟩, ⟨_, rfl, by decide, rfl⟩⟩

end StressAppTest.Disk
