import StressAppTest.Memory.Copy

/-!
# Inversion and sector tags (`invert_workload.h`, `FileThread` of `worker.cc`)

Both work on 32-bit units inside the 64-bit words of a page. `unitOf` and `setUnit` read and
write one unit; a memory is determined by its units (`mem_ext`).

* `invertWordsUp_eq`, `invertWordsDown_eq`: either direction inverts every word of the range
  and nothing else, so an even number of passes restores the page (`invertRegion_invertRegion`).
* `sectorTagPage_clean`, `sectorValidatePage_tagged`: the tags that are written over a clean
  page are accepted when it is read back, and taken off again.
-/

namespace StressAppTest

/-! ## 32-bit units -/

/-- The 32-bit unit at unit address `u`. -/
def unitOf (mem : Mem) (u : Nat) : Word32 :=
  if u % 2 = 0 then low (mem (u / 2)) else high (mem (u / 2))

/-- A 32-bit store. -/
def setUnit (mem : Mem) (u : Nat) (x : Word32) : Mem :=
  Function.update mem (u / 2)
    (if u % 2 = 0 then datacast x (high (mem (u / 2))) else datacast (low (mem (u / 2))) x)

theorem unitOf_setUnit (mem : Mem) (u v : Nat) (x : Word32) :
    unitOf (setUnit mem u x) v = if v = u then x else unitOf mem v := by
  unfold unitOf setUnit
  by_cases hw : v / 2 = u / 2
  · rw [hw, Function.update_self]
    by_cases hu : u % 2 = 0
    · by_cases hv : v % 2 = 0
      · rw [if_pos hu, if_pos hv, if_pos (by omega), low_datacast]
      · rw [if_pos hu, if_neg hv, if_neg (by omega), if_neg hv, high_datacast]
    · by_cases hv : v % 2 = 0
      · rw [if_neg hu, if_pos hv, if_neg (by omega), if_pos hv, low_datacast]
      · rw [if_neg hu, if_neg hv, if_pos (by omega), high_datacast]
  · have hvu : v ≠ u := by
      rintro rfl
      exact hw rfl
    rw [Function.update_of_ne hw, if_neg hvu]

theorem mem_ext {m m' : Mem} (h : ∀ u, unitOf m u = unitOf m' u) : m = m' := by
  funext a
  have hlow := h (2 * a)
  have hhigh := h (2 * a + 1)
  unfold unitOf at hlow hhigh
  rw [if_pos (by omega), if_pos (by omega), show 2 * a / 2 = a by omega] at hlow
  rw [if_neg (by omega), if_neg (by omega), show (2 * a + 1) / 2 = a by omega] at hhigh
  rw [← datacast_low_high (m a), ← datacast_low_high (m' a), hlow, hhigh]

/-! ## Inversion -/

/-- `*iter = ~(*iter);` -/
def invertUnit (mem : Mem) (u : Nat) : Mem := setUnit mem u (~~~unitOf mem u)

/-- The argument check of both functions. The count is not negative here. -/
def invertArgs (base words flushIntervalWords : Nat) : Bool :=
  base != 0 && flushIntervalWords != 0 && words % flushIntervalWords == 0

/-- `InvertWordsUp`, with the unit address of `base`; `none` is its failure. -/
def invertWordsUp (mem : Mem) (base words flushIntervalWords : Nat) : Option Mem :=
  if invertArgs base words flushIntervalWords then
    some (forUpTo (words / flushIntervalWords) (fun k m =>
      forUpTo flushIntervalWords (fun i m => invertUnit m (base + (k * flushIntervalWords + i))) m) mem)
  else none

/-- `InvertWordsDown` -/
def invertWordsDown (mem : Mem) (base words flushIntervalWords : Nat) : Option Mem :=
  if invertArgs base words flushIntervalWords then
    some (forUpTo (words / flushIntervalWords) (fun k m =>
      forUpTo flushIntervalWords (fun i m =>
        invertUnit m (base + (words - 1 - (k * flushIntervalWords + i)))) m) mem)
  else none

/-- Every word of a range inverted. -/
def invertRegion (mem : Mem) (base n : Nat) : Mem := fun a =>
  if base ≤ a ∧ a < base + n then ~~~mem a else mem a

theorem invertRegion_invertRegion (mem : Mem) (base n : Nat) :
    invertRegion (invertRegion mem base n) base n = mem := by
  funext a
  simp only [invertRegion]
  split <;> simp

/-- A nested loop is one loop. -/
theorem forUpTo_nested {σ : Type} (m n : Nat) (body : Nat → σ → σ) (s : σ) :
    forUpTo m (fun k t => forUpTo n (fun i u => body (k * n + i) u) t) s = forUpTo (m * n) body s := by
  have hinner : ∀ a b t, forUpTo b (fun i u => body (a + i) u) (forUpTo a body t) =
      forUpTo (a + b) body t := by
    intro a b t
    induction b with
    | zero => rfl
    | succ b ih => rw [forUpTo, ih, ← Nat.add_assoc, forUpTo]
  induction m with
  | zero => simp only [Nat.zero_mul, forUpTo]
  | succ m ih =>
      rw [forUpTo, ih]
      simp only [hinner]
      rw [Nat.succ_mul]

/-- A loop over all units of a range, in any order given by a bijection, inverts each. -/
theorem forUpTo_invertUnit {mem : Mem} {base words : Nat} (place : Nat → Nat)
    (hlt : ∀ s < words, place s < words) (hback : ∀ i < words, place (place i) = i) (v : Nat) :
    unitOf (forUpTo words (fun s m => invertUnit m (base + place s)) mem) v =
      if base ≤ v ∧ v < base + words then ~~~unitOf mem v else unitOf mem v := by
  have hloop : ∀ k ≤ words, ∀ v,
      unitOf (forUpTo k (fun s m => invertUnit m (base + place s)) mem) v =
        if base ≤ v ∧ v < base + words ∧ place (v - base) < k then ~~~unitOf mem v
        else unitOf mem v := by
    intro k hk v
    induction k generalizing v with
    | zero => rw [if_neg (by omega)]; rfl
    | succ k ih =>
        have hp := hlt k (by omega)
        have hpp := hback k (by omega)
        rw [forUpTo, invertUnit, unitOf_setUnit]
        by_cases hv : v = base + place k
        · subst hv
          have hpk : place (base + place k - base) = k := by
            rw [Nat.add_sub_cancel_left, hpp]
          rw [if_pos rfl, ih (by omega), if_neg (by omega), if_pos (by omega)]
        · rw [if_neg hv, ih (by omega)]
          by_cases hin : base ≤ v ∧ v < base + words
          · have hne : place (v - base) ≠ k := by
              rintro rfl
              rw [hback _ (by omega)] at hv
              omega
            by_cases hlt' : place (v - base) < k
            · rw [if_pos (by omega), if_pos (by omega)]
            · rw [if_neg (by omega), if_neg (by omega)]
          · rw [if_neg (by omega), if_neg (by omega)]
  rw [hloop words (Nat.le_refl _)]
  by_cases hin : base ≤ v ∧ v < base + words
  · have := hlt (v - base) (by omega)
    rw [if_pos (by omega), if_pos hin]
  · rw [if_neg (by omega), if_neg hin]

theorem low_not (w : Word64) : low (~~~w) = ~~~low w := by
  unfold low
  ext i hi
  simp [show i < 64 by omega]

theorem high_not (w : Word64) : high (~~~w) = ~~~high w := by
  unfold high
  ext i hi
  simp [show 32 + i < 64 by omega]

theorem unitOf_invertRegion (mem : Mem) (base n v : Nat) :
    unitOf (invertRegion mem base n) v =
      if 2 * base ≤ v ∧ v < 2 * base + 2 * n then ~~~unitOf mem v else unitOf mem v := by
  unfold unitOf invertRegion
  by_cases hin : base ≤ v / 2 ∧ v / 2 < base + n
  · rw [if_pos hin, if_pos (by omega : 2 * base ≤ v ∧ v < 2 * base + 2 * n)]
    split
    · exact low_not _
    · exact high_not _
  · rw [if_neg hin, if_neg (by omega : ¬ (2 * base ≤ v ∧ v < 2 * base + 2 * n))]

theorem invertArgs_page {base n : Nat} (hbase : 0 < base) :
    invertArgs (2 * base) (2 * (8 * n)) 16 = true := by
  have hmod : 2 * (8 * n) % 16 = 0 := by omega
  have hne : 2 * base ≠ 0 := by omega
  simp [invertArgs, hmod, hne]

theorem invertWordsUp_eq {mem : Mem} {base n : Nat} (hbase : 0 < base) :
    invertWordsUp mem (2 * base) (2 * (8 * n)) 16 = some (invertRegion mem base (8 * n)) := by
  rw [invertWordsUp, if_pos (invertArgs_page hbase), Option.some.injEq,
    forUpTo_nested _ _ (fun s m => invertUnit m (2 * base + s)),
    show 2 * (8 * n) / 16 * 16 = 2 * (8 * n) by omega]
  apply mem_ext
  intro v
  rw [unitOf_invertRegion]
  exact forUpTo_invertUnit id (fun _ h => h) (fun _ _ => rfl) v

theorem invertWordsDown_eq {mem : Mem} {base n : Nat} (hbase : 0 < base) :
    invertWordsDown mem (2 * base) (2 * (8 * n)) 16 = some (invertRegion mem base (8 * n)) := by
  rw [invertWordsDown, if_pos (invertArgs_page hbase), Option.some.injEq,
    forUpTo_nested _ _ (fun s m => invertUnit m (2 * base + (2 * (8 * n) - 1 - s))),
    show 2 * (8 * n) / 16 * 16 = 2 * (8 * n) by omega]
  apply mem_ext
  intro v
  rw [unitOf_invertRegion]
  exact forUpTo_invertUnit (fun s => 2 * (8 * n) - 1 - s) (fun _ h => by omega)
    (fun _ _ => by omega) v

namespace Sat

/-- `Sat::invert_range_bytes` -/
def invertRangeBytes (sat : Sat) : Nat :=
  match sat.invertRange with
  | .full => sat.pageLength
  | .legacy => sat.pageLength / 4096 * 512 * 4

/-- `InvertThread::InvertPageUp` of the page at word address `base`. A failure would stop the
program (`sat_assert`). -/
def invertPageUp (sat : Sat) (mem : Mem) (base : Nat) : Option Mem :=
  invertWordsUp mem (2 * base) (sat.invertRangeBytes / 4) 16

/-- `InvertThread::InvertPageDown` -/
def invertPageDown (sat : Sat) (mem : Mem) (base : Nat) : Option Mem :=
  invertWordsDown mem (2 * base) (sat.invertRangeBytes / 4) 16

/-- The range is made of whole 64-byte lines inside the page. -/
theorem invertRangeBytes_eq (sat : Sat) :
    ∃ n, sat.invertRangeBytes / 4 = 2 * (8 * n) ∧ 8 * n ≤ sat.pageWords := by
  obtain ⟨k, hw, hl⟩ := sat.pageLength_eq
  unfold invertRangeBytes
  split
  · exact ⟨16 * k, by omega, by omega⟩
  · exact ⟨sat.pageLength / 4096 * 32, by omega, by omega⟩

/-! ## Sector tags -/

/-- `struct SectorTag` as the 32-bit unit it covers. -/
def sectorTag (magic block sector pass : Nat) : Word32 :=
  BitVec.ofNat 8 pass ++ BitVec.ofNat 8 sector ++ BitVec.ofNat 8 block ++ BitVec.ofNat 8 magic

/-- `FileThread::SectorTagPage`. The magic is `0xba + thread_num_`; all four bytes are stored
modulo 256. -/
def sectorTagPage (sat : Sat) (mem : Mem) (base threadNum block pass : Nat) : Mem :=
  forUpTo (sat.pageLength / 512) (fun sec m =>
    setUnit m (2 * (base + 64 * sec)) (sectorTag (0xba + threadNum) block sec pass)) mem

/-- The state of the loop of `SectorValidatePage`: the memory, the wrong sectors so far, and
whether there was one. -/
structure Sectors where
  mem : Mem
  errorcount : Nat
  badsector : Bool

/-- One sector: its tag is checked and then patched back to the pattern. -/
def validateSector (base threadNum block pass : Nat) (p : Pattern) (sec : Nat) (s : Sectors) :
    Sectors :=
  let u := 2 * (base + 64 * sec)
  let bad := unitOf s.mem u != sectorTag (0xba + threadNum) block sec pass
  ⟨setUnit s.mem u (p.pattern (128 * sec)), s.errorcount + (if bad then 1 else 0), s.badsector || bad⟩

/-- `FileThread::SectorValidatePage`. All wrong sectors are of one page, so the repair loop
runs once; it writes `page_length / wordsize_` units of 32 bits, the first half of the page. -/
def sectorValidatePage (sat : Sat) (mem : Mem) (base threadNum block pass : Nat) (p : Pattern) :
    Sectors :=
  let s := forUpTo (sat.pageLength / 512) (validateSector base threadNum block pass p) ⟨mem, 0, false⟩
  if s.badsector then
    { s with mem := forUpTo (sat.pageLength / 8) (fun i m => setUnit m (2 * base + i) (p.pattern i)) s.mem }
  else s

/-- The words of a clean page under its sector tags. -/
def sectorWord (sat : Sat) (base : Nat) (p : Pattern) (threadNum block pass i : Nat) : Word64 :=
  if i % 64 = 0 then
    datacast (sectorTag (0xba + threadNum) block (i / 64) pass) (high (sat.fillWord base p i))
  else sat.fillWord base p i

variable {sat : Sat} {mem : Mem} {base : Nat} {p : Pattern}

/-- A loop over the sectors of a page that writes the low unit of the first word of each. -/
theorem forUpTo_setUnit (mem : Mem) (base n : Nat) (f : Nat → Word32) :
    forUpTo n (fun sec m => setUnit m (2 * (base + 64 * sec)) (f sec)) mem =
      writeWords mem base (64 * n) fun i =>
        if i % 64 = 0 then datacast (f (i / 64)) (high (mem (base + i))) else mem (base + i) := by
  induction n with
  | zero => rw [Nat.mul_zero, writeWords_zero, forUpTo]
  | succ n ih =>
      rw [forUpTo, ih]
      funext a
      rw [setUnit, show 2 * (base + 64 * n) / 2 = base + 64 * n by omega, if_pos (by omega),
        writeWords_of_notMem (a := base + 64 * n) (by omega)]
      by_cases ha : a = base + 64 * n
      · subst ha
        rw [Function.update_self, writeWords_apply (by omega), if_pos (by omega),
          show 64 * n / 64 = n by omega]
      · rw [Function.update_of_ne ha, writeWords, writeWords]
        by_cases hin : base ≤ a ∧ a < base + 64 * n
        · rw [if_pos hin, if_pos (by omega : base ≤ a ∧ a < base + 64 * (n + 1))]
        · rw [if_neg hin]
          by_cases hin' : base ≤ a ∧ a < base + 64 * (n + 1)
          · rw [if_pos hin', if_neg (by omega), show base + (a - base) = a by omega]
          · rw [if_neg hin']

theorem pageLength_div_sectors (sat : Sat) : 64 * (sat.pageLength / 512) = sat.pageWords := by
  obtain ⟨k, hw, hl⟩ := sat.pageLength_eq
  omega

/-- Tagging a clean page. -/
theorem sectorTagPage_clean (h : sat.Clean mem base p sat.pageWords) (threadNum block pass : Nat) :
    sat.sectorTagPage mem base threadNum block pass =
      writeWords mem base sat.pageWords (sat.sectorWord base p threadNum block pass) := by
  rw [sectorTagPage, forUpTo_setUnit, pageLength_div_sectors]
  refine writeWords_congr fun i hi => ?_
  rw [sectorWord, h i hi]

/-- **The way back.** Tags found as they were written are accepted, and the page is clean. -/
theorem sectorValidatePage_tagged (htag : sat.tagMode = false) {threadNum block pass : Nat}
    {src : Nat} (h : ∀ i < sat.pageWords, mem (base + i) = sat.sectorWord src p threadNum block pass i) :
    sat.sectorValidatePage mem base threadNum block pass p =
      ⟨writeWords mem base sat.pageWords (sat.fillWord base p), 0, false⟩ := by
  have hwords := pageLength_div_sectors sat
  have hplain (b i : Nat) : sat.fillWord b p i = datacast (p.pattern (2 * i)) (p.pattern (2 * i + 1)) := by
    rw [fillWord, fillData, htag]
    rfl
  have hloop : forUpTo (sat.pageLength / 512) (validateSector base threadNum block pass p)
      ⟨mem, 0, false⟩ =
        ⟨forUpTo (sat.pageLength / 512) (fun sec m =>
          setUnit m (2 * (base + 64 * sec)) (p.pattern (128 * sec))) mem, 0, false⟩ := by
    refine forUpTo_inv (fun k (s : Sectors) => s = ⟨forUpTo k (fun sec m =>
      setUnit m (2 * (base + 64 * sec)) (p.pattern (128 * sec))) mem, 0, false⟩) rfl ?_
    rintro sec hsec s rfl
    have hread : unitOf (forUpTo sec (fun sec m =>
        setUnit m (2 * (base + 64 * sec)) (p.pattern (128 * sec))) mem) (2 * (base + 64 * sec)) =
          sectorTag (0xba + threadNum) block sec pass := by
      rw [forUpTo_setUnit, unitOf, if_pos (by omega), show 2 * (base + 64 * sec) / 2 = base + 64 * sec by omega,
        writeWords_of_notMem (by omega), h _ (by omega), sectorWord, if_pos (by omega), low_datacast,
        show 64 * sec / 64 = sec by omega]
    simp only [validateSector, hread, bne_self_eq_false, Bool.or_self, Bool.false_eq_true, if_false,
      Nat.add_zero]
    rfl
  rw [sectorValidatePage, hloop]
  simp only [Bool.false_eq_true, if_false, Sectors.mk.injEq, and_true]
  rw [forUpTo_setUnit, hwords]
  refine writeWords_congr fun i hi => ?_
  rw [h i hi, sectorWord, hplain, hplain]
  split
  · rw [high_datacast, high_datacast, show 128 * (i / 64) = 2 * i by omega]
  · rfl

end Sat

end StressAppTest
