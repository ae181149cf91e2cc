import Mathlib.Algebra.Order.BigOperators.Group.List
import StressAppTest.Library.Runs
import StressAppTest.Memory.Fill
import StressAppTest.PageEntry

/-!
# The map of tested pages (`Sat::AddrMapInit`, `AddrMapUpdate`, `AddrMapPrint`)

With `--do_page_map` one bit for each 4 KiB page of physical memory says whether a page of the test
lies there. The printer is the scan of `Library.Runs` (`addrMapPrint_eq`): a range is printed at the
first page after it, and nothing is printed after the last page of the map.

The three functions round differently. The array has a byte for eight whole pages, the printer goes
over all whole pages; the byte offset is an `int` in the printer and a `uint32` in `AddrMapUpdate`.
`addr_map_exact` says when none of this is seen.
-/

namespace StressAppTest.Control

/-- `page_bitmap_size_` and the bytes of `page_bitmap_`. -/
structure AddrMap where
  size : Nat
  bitmap : Nat → BitVec 8

namespace AddrMap

def pages (m : AddrMap) : Nat := m.size / 4096

def arraysize (m : AddrMap) : Nat := m.size / 4096 / 8

/-- `Sat::AddrMapInit`, with the size that `FindFreeMemSize` returns. -/
def addrMapInit (freeMemSize : Nat) : Option AddrMap :=
  let maxsize := freeMemSize * 4 % 2 ^ 64
  if maxsize = 0 then none else some ⟨maxsize, fun _ => 0⟩

/-- The pass of `AddrMapUpdate` for one physical address; `none` is the failed assertion. -/
def touch (m : AddrMap) (paddr : Nat) : Option AddrMap :=
  let offset := paddr / 4096 / 8 % 2 ^ 32
  let mask := BitVec.twoPow 8 (paddr / 4096 % 8)
  if m.arraysize ≤ offset then none
  else some { m with bitmap := Function.update m.bitmap offset (m.bitmap offset ||| mask) }

/-- The physical addresses that `AddrMapUpdate` looks up. -/
def blockAddrs (sat : Sat) (pe : PageEntry) : List Nat :=
  (List.range ((sat.pageLength + 4095) / 4096)).map fun k =>
    sat.virtualToPhysical (pe.addr.getD 0 + k * 4096)

/-- `Sat::AddrMapUpdate` -/
def addrMapUpdate (sat : Sat) (m : AddrMap) (pe : PageEntry) : Option AddrMap :=
  (blockAddrs sat pe).foldlM touch m

/-- What is read at a byte offset. Outside of the array this is anything. -/
def read (m : AddrMap) (outside : Int → BitVec 8) (offset : Int) : BitVec 8 :=
  if 0 ≤ offset ∧ offset < m.arraysize then m.bitmap offset.toNat else outside offset

/-- `last_page`, `valid_range`, the printed ranges and the offsets that have been read. -/
structure Printer where
  lastPage : Nat
  validRange : Bool
  lines : List (Nat × Nat)
  reads : List Int

/-- The byte offset of page `i`, an `int`. -/
def offset (i : Nat) : Int := ((i / 8 : Nat) : Int).bmod (2 ^ 32)

/-- The loop body of `AddrMapPrint`. -/
def printPage (readByte : Int → BitVec 8) (i : Nat) (s : Printer) : Printer :=
  let mask := BitVec.twoPow 8 (i % 8)
  let touched := readByte (offset i) &&& mask != 0
  let s := { s with reads := s.reads ++ [offset i] }
  if touched && !s.validRange then { s with validRange := true, lastPage := i * 4096 }
  else if !touched && s.validRange then
    { s with validRange := false, lines := s.lines ++ [(s.lastPage, i * 4096 - 1)] }
  else s

/-- `Sat::AddrMapPrint` -/
def addrMapPrint (m : AddrMap) (outside : Int → BitVec 8) : Printer :=
  forUpTo m.pages (printPage (m.read outside)) ⟨0, false, [], []⟩

/-! ## The printer is a scan -/

/-- The bit of page `i` in memory. -/
def touchedAt (readByte : Int → BitVec 8) (i : Nat) : Bool := (readByte (offset i)).getLsbD (i % 8)

/-- The first and the last byte of a run of pages. -/
def bytes (r : Nat × Nat) : Nat × Nat := (r.1 * 4096, (r.2 + 1) * 4096 - 1)

theorem and_twoPow_ne_zero (b : BitVec 8) {k : Nat} (hk : k < 8) :
    (b &&& BitVec.twoPow 8 k != 0) = b.getLsbD k := by
  rw [BitVec.and_twoPow]
  by_cases h : b.getLsbD k = true
  · have hne : BitVec.twoPow 8 k ≠ 0 := by
      intro hzero
      have hbit := congrArg (fun v : BitVec 8 => v.getLsbD k) hzero
      simp [hk] at hbit
    rw [if_pos h, h]
    exact bne_iff_ne.mpr hne
  · rw [if_neg h, Bool.eq_false_iff.mpr h]
    rfl

/-- The printer follows the scan, in bytes. -/
structure Follows (s : Printer) (r : Runs.Scan) (i : Nat) : Prop where
  validRange : s.validRange = r.inRun
  lastPage : r.inRun = true → s.lastPage = r.start * 4096
  lines : s.lines = r.runs.map bytes
  reads : s.reads = (List.range i).map offset

theorem Follows.step {readByte : Int → BitVec 8} {s : Printer} {r : Runs.Scan} {i : Nat}
    (h : Follows s r i) (hinv : Runs.ScanInv (touchedAt readByte) i r) :
    Follows (printPage readByte i s) (r.step (touchedAt readByte) i) (i + 1) := by
  have htouched := and_twoPow_ne_zero (readByte (offset i)) (Nat.mod_lt i (by decide : 0 < 8))
  have hreads : s.reads ++ [offset i] = (List.range (i + 1)).map offset := by
    rw [h.reads, List.range_succ, List.map_append]
    rfl
  unfold printPage Runs.Scan.step
  dsimp only
  rw [htouched, h.validRange]
  change Follows (if (touchedAt readByte i && !r.inRun) = true then _ else _) _ _
  by_cases hopen : (touchedAt readByte i && !r.inRun) = true
  · rw [if_pos hopen, if_pos hopen]
    exact ⟨rfl, fun _ => rfl, h.lines, hreads⟩
  · rw [if_neg hopen, if_neg hopen]
    change Follows (if (!touchedAt readByte i && r.inRun) = true then _ else _) _ _
    by_cases hclose : (!touchedAt readByte i && r.inRun) = true
    · rw [if_pos hclose, if_pos hclose]
      have hin : r.inRun = true := (Bool.and_eq_true _ _ ▸ hclose).2
      refine ⟨rfl, fun hfalse => absurd hfalse Bool.false_ne_true, ?_, hreads⟩
      have hpos : i - 1 + 1 = i := Nat.sub_add_cancel (hinv.inRun.mp hin).1
      dsimp only
      rw [h.lines, h.lastPage hin, List.map_append, List.map_singleton, bytes, hpos]
    · rw [if_neg hclose, if_neg hclose]
      exact ⟨rfl, h.lastPage, h.lines, hreads⟩

/-- **The printer** follows the scan of all pages. -/
theorem follows_scan (readByte : Int → BitVec 8) (n : Nat) :
    Follows (forUpTo n (printPage readByte) ⟨0, false, [], []⟩) (Runs.scan (touchedAt readByte) n) n := by
  induction n with
  | zero => exact ⟨rfl, fun hfalse => absurd hfalse Bool.false_ne_true, rfl, rfl⟩
  | succ n ih => exact ih.step (Runs.scan_inv _ n)

theorem addrMapPrint_lines (m : AddrMap) (outside : Int → BitVec 8) :
    (m.addrMapPrint outside).lines =
      (Runs.scan (touchedAt (m.read outside)) m.pages).runs.map bytes := by
  unfold addrMapPrint
  apply (follows_scan _ _).lines

theorem addrMapPrint_reads (m : AddrMap) (outside : Int → BitVec 8) :
    (m.addrMapPrint outside).reads = (List.range m.pages).map offset := by
  unfold addrMapPrint
  apply (follows_scan _ _).reads

/-! ## The bits -/

/-- The bit of page `j`. -/
def bit (m : AddrMap) (j : Nat) : Bool := (m.bitmap (j / 8)).getLsbD (j % 8)

/-- The page whose bit `AddrMapUpdate` sets for an address. -/
def bitPage (paddr : Nat) : Nat := paddr / 4096 % 2 ^ 35

theorem touch_some {m m' : AddrMap} {paddr : Nat} (h : m.touch paddr = some m') :
    m'.size = m.size ∧ bitPage paddr / 8 < m.arraysize ∧
      ∀ j, m'.bit j = true ↔ m.bit j = true ∨ bitPage paddr = j := by
  unfold touch at h
  have hoffset : paddr / 4096 / 8 % 2 ^ 32 = bitPage paddr / 8 := by
    unfold bitPage
    omega
  have hbit : paddr / 4096 % 8 = bitPage paddr % 8 := by
    unfold bitPage
    omega
  dsimp only at h
  rw [hoffset, hbit] at h
  by_cases hout : m.arraysize ≤ bitPage paddr / 8
  · rw [if_pos hout] at h
    cases h
  · rw [if_neg hout] at h
    cases h
    refine ⟨rfl, by omega, ?_⟩
    intro j
    unfold bit
    dsimp only
    by_cases hbyte : j / 8 = bitPage paddr / 8
    · rw [hbyte, Function.update_self, BitVec.getLsbD_or, BitVec.getLsbD_twoPow, Bool.or_eq_true]
      apply or_congr_right
      simp only [Bool.and_eq_true, decide_eq_true_eq]
      omega
    · rw [Function.update_of_ne hbyte]
      apply (or_iff_left _).symm
      intro heq
      exact hbyte (by rw [heq])

/-- **The bits** after any number of addresses. -/
theorem touches_some {paddrs : List Nat} {m m' : AddrMap} (h : paddrs.foldlM touch m = some m') :
    m'.size = m.size ∧ (∀ p ∈ paddrs, bitPage p / 8 < m.arraysize) ∧
      ∀ j, m'.bit j = true ↔ m.bit j = true ∨ ∃ p ∈ paddrs, bitPage p = j := by
  induction paddrs generalizing m with
  | nil =>
      cases h
      simp
  | cons p paddrs ih =>
      rw [List.foldlM_cons] at h
      obtain ⟨m₁, hp, hrest⟩ := Option.bind_eq_some_iff.mp h
      obtain ⟨hsize, hin, hbits⟩ := touch_some hp
      obtain ⟨hsize', hin', hbits'⟩ := ih hrest
      refine ⟨hsize'.trans hsize, ?_, ?_⟩
      · intro p' hp'
        rcases List.mem_cons.mp hp' with rfl | hp'
        · exact hin
        · have := hin' p' hp'
          unfold arraysize at this ⊢
          rwa [hsize] at this
      · intro j
        rw [hbits', hbits, List.exists_mem_cons_iff, or_assoc]

/-- The updates of all entries are those of all their addresses. -/
theorem updates_eq (sat : Sat) (pes : List PageEntry) (m : AddrMap) :
    pes.foldlM (addrMapUpdate sat) m = (pes.flatMap (blockAddrs sat)).foldlM touch m := by
  induction pes generalizing m with
  | nil => rfl
  | cons pe pes ih =>
      rw [List.foldlM_cons, List.flatMap_cons, List.foldlM_append]
      apply Option.bind_congr
      intro m' _
      exact ih m'

/-! ## When the printed ranges are the tested ones -/

/-- One of the addresses lies in page `i`. -/
def TestedPage (paddrs : List Nat) (i : Nat) : Prop := ∃ p ∈ paddrs, p / 4096 = i

/-- The ranges are those of the maximal runs of tested pages, and only the array has been read. -/
structure Exact (m : AddrMap) (paddrs : List Nat) (s : Printer) : Prop where
  lines : ∀ l, l ∈ s.lines ↔ ∃ a b, Runs.IsRun (TestedPage paddrs) a b ∧ l = bytes (a, b)
  ascending : s.lines.Pairwise fun l l' => l.2 < l'.1
  inside : ∀ o ∈ s.reads, 0 ≤ o ∧ o < m.arraysize

theorem bytes_inj {r r' : Nat × Nat} (h : bytes r = bytes r') : r = r' := by
  unfold bytes at h
  rw [Prod.mk.injEq] at h
  ext <;> omega

/-- Within 2^34 pages the `int` offset is the offset. -/
theorem offset_eq {i : Nat} (hi : i < 2 ^ 34) : offset i = (i / 8 : Nat) := by
  unfold offset
  apply Int.bmod_eq_of_le_mul_two
  · omega
  · omega

theorem mem_reads {m : AddrMap} {outside : Int → BitVec 8} {o : Int} :
    o ∈ (m.addrMapPrint outside).reads ↔ ∃ i, i < m.pages ∧ offset i = o := by
  rw [addrMapPrint_reads, List.mem_map]
  simp only [List.mem_range]

/-- **The reads** stay inside of the array when it has a bit for each page and the offsets fit. -/
theorem reads_inside_iff (m : AddrMap) (outside : Int → BitVec 8) :
    (∀ o ∈ (m.addrMapPrint outside).reads, 0 ≤ o ∧ o < m.arraysize) ↔
      8 ∣ m.pages ∧ m.pages ≤ 2 ^ 34 := by
  have harray : m.arraysize = m.pages / 8 := rfl
  constructor
  · intro hin
    have hle : m.pages ≤ 2 ^ 34 := by
      by_contra hlt
      have hread := hin (offset (2 ^ 34)) (mem_reads.mpr ⟨2 ^ 34, by omega, rfl⟩)
      have hneg : offset (2 ^ 34) = -2 ^ 31 := by decide
      omega
    refine ⟨?_, hle⟩
    by_contra hdvd
    -- the last page has no bit
    have hread := hin (offset (m.pages - 1)) (mem_reads.mpr ⟨m.pages - 1, by omega, rfl⟩)
    rw [offset_eq (by omega), harray] at hread
    omega
  · rintro ⟨hdvd, hle⟩ o ho
    obtain ⟨i, hi, rfl⟩ := mem_reads.mp ho
    rw [offset_eq (by omega), harray]
    omega

theorem mem_lines {m : AddrMap} {outside : Int → BitVec 8} {l : Nat × Nat} :
    l ∈ (m.addrMapPrint outside).lines ↔
      ∃ a b, Runs.IsRun (touchedAt (m.read outside) · = true) a b ∧ b + 1 < m.pages ∧
        l = bytes (a, b) := by
  rw [addrMapPrint_lines, List.mem_map]
  have hinv := Runs.scan_inv (touchedAt (m.read outside)) m.pages
  constructor
  · rintro ⟨⟨a, b⟩, hmem, rfl⟩
    obtain ⟨hrun, hlt⟩ := (hinv.mem a b).mp hmem
    exact ⟨a, b, hrun, hlt, rfl⟩
  · rintro ⟨a, b, hrun, hlt, rfl⟩
    exact ⟨(a, b), (hinv.mem a b).mpr ⟨hrun, hlt⟩, rfl⟩

theorem lines_ascending (m : AddrMap) (outside : Int → BitVec 8) :
    (m.addrMapPrint outside).lines.Pairwise fun l l' => l.2 < l'.1 := by
  rw [addrMapPrint_lines, List.pairwise_map]
  apply (Runs.scan_inv _ _).ascending.imp
  intro r r' hlt
  unfold bytes
  dsimp only
  omega

/-- A tested page is in a run of tested pages. -/
theorem exists_run_of_tested {paddrs : List Nat} {p : Nat} (hp : p ∈ paddrs) :
    ∃ a b, Runs.IsRun (TestedPage paddrs) a b ∧ a ≤ p / 4096 ∧ p / 4096 ≤ b := by
  apply Runs.exists_isRun (n := paddrs.sum + 1) _ ⟨p, hp, rfl⟩
  rintro i ⟨p', hp', rfl⟩
  have := List.le_sum_of_mem hp'
  omega

/-- Where the reads are inside, what is read is the bit. -/
theorem touchedAt_read {m : AddrMap} {outside : Int → BitVec 8} {i : Nat} (hdvd : 8 ∣ m.pages)
    (hle : m.pages ≤ 2 ^ 34) (hi : i < m.pages) : touchedAt (m.read outside) i = m.bit i := by
  have harray : m.arraysize = m.pages / 8 := rfl
  unfold touchedAt read bit
  rw [offset_eq (by omega), if_pos (by omega)]
  rfl

/-- **The printed ranges** are the runs of tested pages, in order and from reads of the array
alone, exactly when the map has a whole number of bytes and at most 2^34 pages, the addresses are
below 2^47 and none of them is in the last page of the map. -/
theorem addr_map_exact (sat : Sat) (freeMemSize : Nat) (pes : List PageEntry)
    (outside : Int → BitVec 8) {m m' : AddrMap} (hinit : addrMapInit freeMemSize = some m)
    (hupdates : pes.foldlM (addrMapUpdate sat) m = some m') :
    Exact m (pes.flatMap (blockAddrs sat)) (m'.addrMapPrint outside) ↔
      (8 ∣ m.pages ∧ m.pages ≤ 2 ^ 34) ∧
        ∀ p ∈ pes.flatMap (blockAddrs sat), p < 2 ^ 47 ∧ p / 4096 + 1 ≠ m.pages := by
  rw [updates_eq] at hupdates
  generalize pes.flatMap (blockAddrs sat) = paddrs at hupdates ⊢
  obtain ⟨hsize, hin, hbits⟩ := touches_some hupdates
  have hpages : m'.pages = m.pages := by
    unfold pages
    rw [hsize]
  have harray : m'.arraysize = m.arraysize := by
    unfold arraysize
    rw [hsize]
  have hzero : ∀ j, m.bit j = false := by
    unfold addrMapInit at hinit
    dsimp only at hinit
    split at hinit
    · cases hinit
    · cases hinit
      intro j
      exact BitVec.getLsbD_zero
  have hinside := reads_inside_iff m' outside
  rw [harray, hpages] at hinside
  constructor
  · intro hexact
    obtain ⟨hdvd, hle⟩ := hinside.mp hexact.inside
    refine ⟨⟨hdvd, hle⟩, ?_⟩
    intro p hp
    -- the run of the page has been printed, so the map goes on after it
    obtain ⟨a, b, hrun, hap, hpb⟩ := exists_run_of_tested hp
    obtain ⟨a', b', _, hlt, heq⟩ := mem_lines.mp ((hexact.lines _).mpr ⟨a, b, hrun, rfl⟩)
    have hb : b = b' := congrArg Prod.snd (bytes_inj heq)
    omega
  · rintro ⟨⟨hdvd, hle⟩, hbelow⟩
    have hpage : ∀ p ∈ paddrs, bitPage p = p / 4096 ∧ p / 4096 + 1 < m.pages := by
      intro p hp
      obtain ⟨hlow, hlast⟩ := hbelow p hp
      have hbyte := hin p hp
      have : bitPage p = p / 4096 := by
        unfold bitPage
        omega
      rw [this, show m.arraysize = m.pages / 8 from rfl] at hbyte
      omega
    have htouched : ∀ i, i < m.pages →
        (touchedAt (m'.read outside) i = true ↔ TestedPage paddrs i) := by
      intro i hi
      rw [touchedAt_read (by rwa [hpages]) (by rwa [hpages]) (by rwa [hpages]), hbits, hzero]
      simp only [Bool.false_eq_true, false_or]
      apply exists_congr
      intro p
      apply and_congr_right
      intro hp
      rw [(hpage p hp).1]
    refine ⟨?_, lines_ascending m' outside, hinside.mpr ⟨hdvd, hle⟩⟩
    intro l
    rw [mem_lines]
    apply exists_congr
    intro a
    apply exists_congr
    intro b
    rw [hpages]
    constructor
    · rintro ⟨hrun, hlt, heq⟩
      exact ⟨(Runs.isRun_congr fun i hi => htouched i (by omega)).mp hrun, heq⟩
    · rintro ⟨hrun, heq⟩
      obtain ⟨p, hp, hpb⟩ := hrun.mem b hrun.le (Nat.le_refl b)
      have hlt : b + 1 < m.pages := hpb ▸ (hpage p hp).2
      exact ⟨(Runs.isRun_congr fun i hi => htouched i (by omega)).mpr hrun, hlt, heq⟩

/-- An entry whose page is mapped at `addr`. -/
def entryAt (addr : Nat) : PageEntry := ⟨0, some addr, addr, none, 0, 0, 0, 0, -1, none⟩

/-- A map of eight pages, and the first of them tested. -/
theorem addr_map_exact_firstPage :
    ∃ m m', addrMapInit 8192 = some m ∧ [entryAt 0].foldlM (addrMapUpdate Sat.oneBlock) m = some m' ∧
      Exact m ([entryAt 0].flatMap (blockAddrs Sat.oneBlock)) (m'.addrMapPrint fun _ => 0) := by
  have hinit : addrMapInit 8192 = some ⟨32768, fun _ => 0⟩ := rfl
  obtain ⟨m', hm'⟩ : ∃ m', [entryAt 0].foldlM (addrMapUpdate Sat.oneBlock) ⟨32768, fun _ => 0⟩ =
      some m' := Option.isSome_iff_exists.mp (by decide +kernel)
  refine ⟨_, m', hinit, hm', ?_⟩
  apply (addr_map_exact Sat.oneBlock 8192 [entryAt 0] (fun _ => 0) hinit hm').mpr
  decide

/-- The run that reaches the last of the eight pages is not printed. -/
theorem addr_map_last_page :
    ∃ m m', addrMapInit 8192 = some m ∧
      [entryAt 28672].foldlM (addrMapUpdate Sat.oneBlock) m = some m' ∧
      ¬ Exact m ([entryAt 28672].flatMap (blockAddrs Sat.oneBlock)) (m'.addrMapPrint fun _ => 0) := by
  obtain ⟨m', hm'⟩ : ∃ m', [entryAt 28672].foldlM (addrMapUpdate Sat.oneBlock) ⟨32768, fun _ => 0⟩ =
      some m' := Option.isSome_iff_exists.mp (by decide +kernel)
  refine ⟨⟨32768, fun _ => 0⟩, m', rfl, hm', ?_⟩
  intro hexact
  have hnothing : ([entryAt 28672].foldlM (addrMapUpdate Sat.oneBlock) ⟨32768, fun _ => 0⟩).map
      (fun m => (m.addrMapPrint fun _ => 0).lines) = some [] := by decide +kernel
  rw [hm', Option.map_some, Option.some.injEq] at hnothing
  have htested : [entryAt 28672].flatMap (blockAddrs Sat.oneBlock) = [28672] := by decide
  rw [htested] at hexact
  have hrun : Runs.IsRun (TestedPage [28672]) 7 7 := by
    constructor
    · exact Nat.le_refl 7
    · intro i hi hi'
      exact ⟨28672, List.mem_singleton_self _, by omega⟩
    · right
      simp [TestedPage]
    · simp [TestedPage]
  have hprinted := (hexact.lines _).mpr ⟨7, 7, hrun, rfl⟩
  rw [hnothing] at hprinted
  cases hprinted

end AddrMap

end StressAppTest.Control
