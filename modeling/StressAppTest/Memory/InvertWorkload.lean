import StressAppTest.Memory.Transform

/-!
# The inversion loops (`invert_workload.h`, `InvertThread` of `worker.cc`)

`InvertWordsUp` and `InvertWordsDown` with what they do in order: stores to 32-bit units and calls
of the flush hint. The loops end on the equality of two pointers, so they are run with fuel, and
`Inverts` is proved of the result for enough of it. Pointers are unit addresses, as in C inside
one object.

* `Direction.invertWords_eq`: either function rejects its arguments and does nothing, or ends with every
  word of the range inverted once and the hint called once per interval, after the words of it.
* `invertPage_lines`: the ranges of `invert_range_bytes` are never rejected; up, down, down, up restores a page.
-/

namespace StressAppTest

namespace InvertWorkload

/-- What is visible of a pass from outside. -/
inductive Event
  | store (u : Nat) (x : Word32)
  | hint (u : Nat)
  deriving DecidableEq, Repr

/-- The address of a store. -/
def Event.stored : Event → Option Nat
  | .store u _ => some u
  | .hint _ => none

/-- The argument of a call of the hint. -/
def Event.hinted : Event → Option Nat
  | .store _ _ => none
  | .hint u => some u

/-- The state of the loops. -/
structure Pass where
  mem : Mem
  iter : Nat
  trace : List Event

/-- `*iter = ~(*iter);` -/
def Pass.invert (s : Pass) : Pass :=
  { s with mem := invertUnit s.mem s.iter, trace := s.trace ++ [.store s.iter (~~~unitOf s.mem s.iter)] }

/-- `flush_hint(address)` -/
def Pass.flushHint (s : Pass) (address : Nat) : Pass := { s with trace := s.trace ++ [.hint address] }

/-- The body of the inner loop of `InvertWordsUp`. -/
def upWord (s : Pass) : Pass := { s.invert with iter := s.iter + 1 }

/-- The body of the inner loop of `InvertWordsDown`. -/
def downWord (s : Pass) : Pass := Pass.invert { s with iter := s.iter - 1 }

/-- The argument check of both functions; address 0 is the null pointer. -/
def rejects (base : Nat) (words flushIntervalWords : Int) (flushHint : Bool) : Bool :=
  base == 0 || words < 0 || flushIntervalWords <= 0 || words.tmod flushIntervalWords != 0 || !flushHint

/-- `InvertWordsUp`; `flushHint` says that the hint is not null. `none` is running out of fuel. -/
def invertWordsUp (fuel : Nat) (mem : Mem) (base : Nat) (words flushIntervalWords : Int) (flushHint : Bool) :
    Option (Bool × Mem × List Event) :=
  if rejects base words flushIntervalWords flushHint then some (false, mem, [])
  else
    let interval := flushIntervalWords.toNat
    let stop := base + words.toNat
    let body := fun (s : Pass) =>
      let s := forUpTo interval (fun _ => upWord) s
      s.flushHint (s.iter - interval)
    (whileLoop fuel (fun s => s.iter != stop) body ⟨mem, base, []⟩).map fun s => (true, s.mem, s.trace)

/-- `InvertWordsDown` -/
def invertWordsDown (fuel : Nat) (mem : Mem) (base : Nat) (words flushIntervalWords : Int) (flushHint : Bool) :
    Option (Bool × Mem × List Event) :=
  if rejects base words flushIntervalWords flushHint then some (false, mem, [])
  else
    let interval := flushIntervalWords.toNat
    let body := fun (s : Pass) =>
      let s := forUpTo interval (fun _ => downWord) s
      s.flushHint s.iter
    (whileLoop fuel (fun s => s.iter != base) body ⟨mem, base + words.toNat, []⟩).map fun s =>
      (true, s.mem, s.trace)

/-! ## What a pass does -/

inductive Direction
  | up
  | down
  deriving DecidableEq, Repr

namespace Direction

/-- The order of the addresses of a pass. -/
def order : Direction → List Nat → List Nat
  | .up => id
  | .down => List.reverse

def invertWords : Direction → Nat → Mem → Nat → Int → Int → Bool → Option (Bool × Mem × List Event)
  | .up => invertWordsUp
  | .down => invertWordsDown

/-- The pointer after `j` words. -/
def iterAt (d : Direction) (base words j : Nat) : Nat :=
  match d with
  | .up => base + j
  | .down => base + words - j

/-- The unit inverted as number `j`. -/
def place (d : Direction) (base words j : Nat) : Nat :=
  match d with
  | .up => base + j
  | .down => base + words - 1 - j

/-- The argument of call `k` of the hint. -/
def hintAt (d : Direction) (base words interval k : Nat) : Nat :=
  match d with
  | .up => base + k * interval
  | .down => base + words - (k + 1) * interval

/-- The inner body. -/
def word : Direction → Pass → Pass
  | .up => upWord
  | .down => downWord

/-- The address handed to the hint after the words of a line. -/
def lineStart (d : Direction) (interval : Nat) (s : Pass) : Nat :=
  match d with
  | .up => s.iter - interval
  | .down => s.iter

/-- One line: its words, then the hint. -/
def line (d : Direction) (interval : Nat) (s : Pass) : Pass :=
  let s := forUpTo interval (fun _ => d.word) s
  s.flushHint (d.lineStart interval s)

end Direction

/-- Every unit of the range is inverted by one store, nothing else changes, and the hint is called
once per interval, with its lowest address and after its last store. -/
structure Inverts (d : Direction) (base words interval : Nat) (mem mem' : Mem) (trace : List Event) : Prop where
  units : ∀ v, unitOf mem' v = if base ≤ v ∧ v < base + words then ~~~unitOf mem v else unitOf mem v
  stores : trace.filterMap Event.stored = d.order (List.range' base words)
  values : ∀ u x, .store u x ∈ trace → x = ~~~unitOf mem u
  hints : trace.filterMap Event.hinted =
    d.order ((List.range (words / interval)).map fun k => base + k * interval)
  covered : ∀ before h, before ++ [.hint h] <+: trace → ∀ u, h ≤ u → u < h + interval →
    u ∈ before.filterMap Event.stored

/-- The loop state after `j` words and `k` hints. -/
structure Progress (d : Direction) (base words interval : Nat) (mem : Mem) (j k : Nat) (s : Pass) : Prop where
  done : ∀ i < j, unitOf s.mem (d.place base words i) = ~~~unitOf mem (d.place base words i)
  other : ∀ v, (∀ i < j, d.place base words i ≠ v) → unitOf s.mem v = unitOf mem v
  iter : s.iter = d.iterAt base words j
  stores : s.trace.filterMap Event.stored = (List.range j).map (d.place base words)
  values : ∀ u x, .store u x ∈ s.trace → x = ~~~unitOf mem u
  hints : s.trace.filterMap Event.hinted = (List.range k).map (d.hintAt base words interval)
  covered : ∀ before h, before ++ [.hint h] <+: s.trace → ∀ u, h ≤ u → u < h + interval →
    u ∈ before.filterMap Event.stored

variable {d : Direction} {base words interval j k : Nat} {mem : Mem} {s : Pass}

theorem Direction.place_inj {i j : Nat} (hi : i < words) (hj : j < words) (hij : i ≠ j) :
    d.place base words i ≠ d.place base words j := by
  cases d <;> simp only [place] <;> omega

/-- The body of either inner loop, at the pointer where it stands. -/
theorem Direction.word_eq (hs : s.iter = d.iterAt base words j) :
    d.word s = ⟨invertUnit s.mem (d.place base words j), d.iterAt base words (j + 1),
      s.trace ++ [.store (d.place base words j) (~~~unitOf s.mem (d.place base words j))]⟩ := by
  cases d with
  | up =>
      simp only [word, upWord, Pass.invert, place, iterAt] at hs ⊢
      rw [hs, Nat.add_assoc]
  | down =>
      simp only [word, downWord, Pass.invert, place, iterAt] at hs ⊢
      rw [hs, Nat.sub_sub, Nat.sub_sub, Nat.add_comm 1 j]

/-- One more word. -/
theorem Progress.word (h : Progress d base words interval mem j k s) (hj : j < words) :
    Progress d base words interval mem (j + 1) k (d.word s) := by
  rw [d.word_eq h.iter]
  have hold : unitOf s.mem (d.place base words j) = unitOf mem (d.place base words j) :=
    h.other _ fun i hi => Direction.place_inj (by omega) hj (by omega)
  constructor
  · intro i hi
    rw [invertUnit, unitOf_setUnit]
    rcases Nat.lt_succ_iff_lt_or_eq.mp hi with hlt | rfl
    · rw [if_neg (Direction.place_inj (by omega) hj (by omega)), h.done i hlt]
    · rw [if_pos rfl, hold]
  · intro v hv
    rw [invertUnit, unitOf_setUnit, if_neg (hv j (Nat.lt_succ_self j)).symm]
    exact h.other v fun i hi => hv i (Nat.lt_succ_of_lt hi)
  · rfl
  · rw [List.filterMap_append, h.stores, List.range_succ, List.map_append]
    rfl
  · intro u x hx
    rcases List.mem_append.mp hx with hx | hx
    · exact h.values u x hx
    · obtain ⟨rfl, rfl⟩ := Event.store.inj (List.mem_singleton.mp hx)
      rw [hold]
  · rw [List.filterMap_append, h.hints]
    exact List.append_nil _
  · intro before a hpre
    rcases List.prefix_concat_iff.mp hpre with heq | hpre
    · cases (List.append_inj' heq rfl).2
    · exact h.covered before a hpre

/-- The hint is called with the lowest address of the words just inverted. -/
theorem Direction.lineStart_eq (hs : s.iter = d.iterAt base words ((k + 1) * interval)) :
    d.lineStart interval s = d.hintAt base words interval k := by
  have hsucc : (k + 1) * interval = k * interval + interval := Nat.succ_mul k interval
  cases d with
  | up =>
      simp only [lineStart, hintAt, iterAt] at hs ⊢
      omega
  | down =>
      simp only [lineStart, hintAt, iterAt] at hs ⊢
      exact hs

/-- The words of a line lie behind its lowest address. -/
theorem Direction.mem_line (hk : (k + 1) * interval ≤ words) {u : Nat}
    (hlo : d.hintAt base words interval k ≤ u) (hhi : u < d.hintAt base words interval k + interval) :
    ∃ i < (k + 1) * interval, d.place base words i = u := by
  have hsucc : (k + 1) * interval = k * interval + interval := Nat.succ_mul k interval
  cases d with
  | up =>
      simp only [hintAt, place] at hlo hhi ⊢
      exact ⟨u - base, by omega, by omega⟩
  | down =>
      simp only [hintAt, place] at hlo hhi ⊢
      exact ⟨base + words - 1 - u, by omega, by omega⟩

/-- One more hint, for a line whose words are inverted. -/
theorem Progress.flushHint (h : Progress d base words interval mem ((k + 1) * interval) k s)
    (hk : (k + 1) * interval ≤ words) :
    Progress d base words interval mem ((k + 1) * interval) (k + 1)
      (s.flushHint (d.hintAt base words interval k)) := by
  constructor
  · exact h.done
  · exact h.other
  · exact h.iter
  · rw [Pass.flushHint, List.filterMap_append, h.stores]
    exact List.append_nil _
  · intro u x hx
    rcases List.mem_append.mp hx with hx | hx
    · exact h.values u x hx
    · cases List.mem_singleton.mp hx
  · rw [Pass.flushHint, List.filterMap_append, h.hints, List.range_succ, List.map_append]
    rfl
  · intro before a hpre u hlo hhi
    rcases List.prefix_concat_iff.mp hpre with heq | hpre
    · obtain ⟨rfl, hlast⟩ := List.append_inj' heq rfl
      obtain rfl : a = d.hintAt base words interval k := by
        simpa only [List.cons.injEq, Event.hint.injEq, and_true] using hlast
      obtain ⟨i, hi, rfl⟩ := Direction.mem_line hk hlo hhi
      rw [h.stores]
      exact List.mem_map_of_mem (List.mem_range.mpr hi)
    · exact h.covered before a hpre u hlo hhi

/-- One line. -/
theorem Progress.line (h : Progress d base words interval mem (k * interval) k s)
    (hk : (k + 1) * interval ≤ words) :
    Progress d base words interval mem ((k + 1) * interval) (k + 1) (d.line interval s) := by
  have hsucc : (k + 1) * interval = k * interval + interval := Nat.succ_mul k interval
  have hwords : Progress d base words interval mem ((k + 1) * interval) k
      (forUpTo interval (fun _ => d.word) s) := by
    rw [hsucc]
    refine forUpTo_inv (fun i => Progress d base words interval mem (k * interval + i) k) h ?_
    intro i hi t ht
    exact ht.word (by omega)
  rw [Direction.line, Direction.lineStart_eq hwords.iter]
  exact hwords.flushHint hk

theorem Progress.start (mem : Mem) :
    Progress d base words interval mem 0 0 ⟨mem, d.iterAt base words 0, []⟩ := by
  constructor
  · exact fun i hi => absurd hi (Nat.not_lt_zero i)
  · exact fun v _ => rfl
  · rfl
  · rfl
  · exact fun u x hx => absurd hx List.not_mem_nil
  · rfl
  · intro before a hpre
    exact absurd (List.prefix_nil.mp hpre) (List.append_ne_nil_of_right_ne_nil _ (List.cons_ne_nil _ _))

/-- The stores of a whole pass, in order. -/
theorem Direction.places_eq (d : Direction) (base words : Nat) :
    (List.range words).map (d.place base words) = d.order (List.range' base words) := by
  cases d with
  | up => exact List.range'_eq_map_range.symm
  | down => exact List.reverse_range'.symm

/-- Its hints, in order. -/
theorem Direction.hints_eq (d : Direction) (base interval k : Nat) :
    (List.range k).map (d.hintAt base (k * interval) interval) =
      d.order ((List.range k).map fun i => base + i * interval) := by
  cases d with
  | up => rfl
  | down =>
      simp only [order]
      rw [← List.map_reverse, List.range_eq_range', List.reverse_range', ← List.range_eq_range',
        List.map_map]
      refine List.map_congr_left fun i hi => ?_
      have hlt := List.mem_range.mp hi
      have hmul : k * interval = (0 + k - 1 - i) * interval + (i + 1) * interval := by
        rw [← Nat.add_mul]
        congr 1
        omega
      simp only [Function.comp, hintAt]
      omega

/-- After the last word the whole range is inverted. -/
theorem Progress.inverts (h : Progress d base (k * interval) interval mem (k * interval) k s)
    (hpos : 0 < interval) : Inverts d base (k * interval) interval mem s.mem s.trace := by
  constructor
  · intro v
    split
    · next hin =>
      obtain ⟨i, hi, rfl⟩ : ∃ i < k * interval, d.place base (k * interval) i = v := by
        cases d with
        | up => exact ⟨v - base, by omega, by simp only [Direction.place]; omega⟩
        | down => exact ⟨base + k * interval - 1 - v, by omega, by simp only [Direction.place]; omega⟩
      exact h.done i hi
    · next hout =>
      refine h.other v fun i hi => ?_
      cases d <;> simp only [Direction.place] <;> omega
  · rw [h.stores, d.places_eq]
  · exact h.values
  · rw [h.hints, d.hints_eq, Nat.mul_div_cancel _ hpos]
  · exact h.covered

/-! ## The two functions -/

/-- Both functions after their argument check. -/
theorem Direction.invertWords_unfold (fuel : Nat) (mem : Mem) (base : Nat) (words flushIntervalWords : Int)
    (hint : Bool) :
    d.invertWords fuel mem base words flushIntervalWords hint =
      if rejects base words flushIntervalWords hint then some (false, mem, [])
      else (whileLoop fuel (fun s => s.iter != d.iterAt base words.toNat words.toNat)
        (d.line flushIntervalWords.toNat) ⟨mem, d.iterAt base words.toNat 0, []⟩).map fun s =>
          (true, s.mem, s.trace) := by
  cases d with
  | up => rfl
  | down =>
      simp only [invertWords, invertWordsDown, iterAt, Nat.add_sub_cancel]
      rfl

/-- The arguments that are accepted: no null pointer, and a count that is a multiple of a positive interval. -/
theorem rejects_eq_false {words flushIntervalWords : Int} {hint : Bool} :
    rejects base words flushIntervalWords hint = false ↔
      base ≠ 0 ∧ hint = true ∧ ∃ k interval : Nat, 0 < interval ∧ words = ↑(k * interval) ∧
        flushIntervalWords = interval := by
  simp only [rejects, Bool.or_eq_false_iff, beq_eq_false_iff_ne, decide_eq_false_iff_not,
    bne_eq_false_iff_eq, Bool.not_eq_false', not_lt, not_le]
  constructor
  · rintro ⟨⟨⟨⟨hbase, hwords⟩, hinterval⟩, hmod⟩, hhint⟩
    refine ⟨hbase, hhint, ?_⟩
    obtain ⟨w, rfl⟩ := Int.eq_ofNat_of_zero_le hwords
    obtain ⟨i, rfl⟩ := Int.eq_ofNat_of_zero_le hinterval.le
    obtain ⟨k, hk⟩ : i ∣ w := Int.natCast_dvd_natCast.mp (Int.dvd_of_tmod_eq_zero hmod)
    exact ⟨k, i, by omega, by rw [hk, Nat.mul_comm], rfl⟩
  · rintro ⟨hbase, rfl, k, interval, hpos, rfl, rfl⟩
    refine ⟨⟨⟨⟨hbase, Int.natCast_nonneg _⟩, by omega⟩, ?_⟩, rfl⟩
    exact Int.tmod_eq_zero_of_dvd (Int.natCast_dvd_natCast.mpr (Nat.dvd_mul_left _ _))

/-- An accepted pass ends, with more fuel than lines. -/
theorem Direction.invertWords_runs (d : Direction) {fuel : Nat} (hfuel : k < fuel) (mem : Mem) (hbase : base ≠ 0)
    (hpos : 0 < interval) :
    ∃ mem' trace, d.invertWords fuel mem base ↑(k * interval) interval true = some (true, mem', trace) ∧
      Inverts d base (k * interval) interval mem mem' trace := by
  have hargs : rejects base ↑(k * interval) interval true = false :=
    rejects_eq_false.mpr ⟨hbase, rfl, k, interval, hpos, rfl, rfl⟩
  let P : Nat → Pass → Prop := fun i => Progress d base (k * interval) interval mem (i * interval) i
  let cond : Pass → Bool := fun s => s.iter != d.iterAt base (k * interval) (k * interval)
  have hstart : P 0 ⟨mem, d.iterAt base (k * interval) 0, []⟩ := by
    simp only [P, Nat.zero_mul]
    exact Progress.start mem
  have hstep : ∀ i, i < k → ∀ t, P i t → cond t = true ∧ P (i + 1) (d.line interval t) := by
    intro i hi t ht
    have hlt : i * interval < k * interval := Nat.mul_lt_mul_of_pos_right hi hpos
    refine ⟨?_, ht.line (Nat.mul_le_mul_right interval hi)⟩
    rw [bne_iff_ne, ht.iter]
    cases d <;> simp only [iterAt] <;> omega
  have hend : ∀ t, P k t → cond t = false := fun t ht => bne_eq_false_iff_eq.mpr ht.iter
  obtain ⟨s, hrun, hs⟩ := whileLoop_counted P hstep hend hfuel hstart
  refine ⟨s.mem, s.trace, ?_, hs.inverts hpos⟩
  rw [invertWords_unfold, hargs, if_neg Bool.false_ne_true]
  simp only [Int.toNat_natCast]
  rw [hrun]
  rfl

/-- Either nothing happens, or the range is inverted. -/
theorem Direction.invertWords_total (d : Direction) (mem : Mem) (base : Nat) (words flushIntervalWords : Int)
    (hint : Bool) :
    (∀ fuel, d.invertWords fuel mem base words flushIntervalWords hint = some (false, mem, [])) ∨
    0 ≤ words ∧ 0 < flushIntervalWords ∧ ∀ fuel, words.toNat < fuel →
      ∃ mem' trace, d.invertWords fuel mem base words flushIntervalWords hint = some (true, mem', trace) ∧
        Inverts d base words.toNat flushIntervalWords.toNat mem mem' trace := by
  cases hargs : rejects base words flushIntervalWords hint with
  | true =>
      left
      intro fuel
      rw [invertWords_unfold, hargs, if_pos rfl]
  | false =>
      obtain ⟨hbase, rfl, k, interval, hpos, rfl, rfl⟩ := rejects_eq_false.mp hargs
      right
      refine ⟨Int.natCast_nonneg _, by omega, fun fuel hfuel => ?_⟩
      simp only [Int.toNat_natCast] at hfuel ⊢
      exact d.invertWords_runs ((Nat.le_mul_of_pos_right k hpos).trans_lt hfuel) mem hbase hpos

/-! ## Pages -/

/-- `words` of `InvertPageUp` and `InvertPageDown`: `page_length_` is an `int`, the blocks of the legacy range
are counted in `int` and multiplied in 64 bits, and the division by `sizeof` is unsigned. -/
def invertWordCount (sat : Sat) : Int :=
  let rangeBytes : BitVec 64 :=
    match sat.invertRange with
    | .full => (BitVec.ofNat 32 sat.pageLength).signExtend 64
    | .legacy => ((BitVec.ofNat 32 sat.pageLength).sdiv 4096).signExtend 64 * (4096 / 8) * 4
  (rangeBytes / 4).toInt

/-- `InvertThread::InvertPageUp` of the page at unit address `addr`. `sat_assert` stops the program on
`false`. -/
def invertPageUp (sat : Sat) (fuel : Nat) (mem : Mem) (addr : Nat) : Option (Bool × Mem × List Event) :=
  invertWordsUp fuel mem addr (invertWordCount sat) (64 / 4) true

/-- `InvertThread::InvertPageDown` -/
def invertPageDown (sat : Sat) (fuel : Nat) (mem : Mem) (addr : Nat) : Option (Bool × Mem × List Event) :=
  invertWordsDown fuel mem addr (invertWordCount sat) (64 / 4) true

def Direction.invertPage : Direction → Sat → Nat → Mem → Nat → Option (Bool × Mem × List Event)
  | .up => invertPageUp
  | .down => invertPageDown

/-- A non-negative `int` keeps its value in 64 bits. -/
theorem toNat_signExtend_of_lt {x : BitVec 32} (hx : x.toNat < 2 ^ 31) : (x.signExtend 64).toNat = x.toNat := by
  have hmsb : x.msb = false := by
    rw [BitVec.msb_eq_false_iff_two_mul_lt]
    omega
  rw [BitVec.signExtend_eq_setWidth_of_msb_false hmsb, BitVec.toNat_setWidth]
  omega

/-- Nor does division change it. -/
theorem toNat_sdiv_of_lt {x y : BitVec 32} (hx : x.toNat < 2 ^ 31) (hy : y.toNat < 2 ^ 31) :
    (x.sdiv y).toNat = x.toNat / y.toNat := by
  have hmsb : ∀ {z : BitVec 32}, z.toNat < 2 ^ 31 → z.msb = false := by
    intro z hz
    rw [BitVec.msb_eq_false_iff_two_mul_lt]
    omega
  rw [BitVec.sdiv_eq, hmsb hx, hmsb hy]
  exact BitVec.toNat_udiv

/-- No step of that arithmetic overflows. -/
theorem invertWordCount_eq {sat : Sat} (hlen : sat.pageLength < 2 ^ 31) :
    invertWordCount sat = ↑(sat.invertRangeBytes / 4) := by
  have hint : (BitVec.ofNat 32 sat.pageLength).toNat = sat.pageLength := by
    rw [BitVec.toNat_ofNat]
    omega
  have hblocks : (((BitVec.ofNat 32 sat.pageLength).sdiv 4096).signExtend 64).toNat = sat.pageLength / 4096 := by
    have hdiv := toNat_sdiv_of_lt (y := 4096) (by omega : (BitVec.ofNat 32 sat.pageLength).toNat < 2 ^ 31)
      (by decide)
    rw [hint] at hdiv
    rw [toNat_signExtend_of_lt (by rw [hdiv]; exact (Nat.div_le_self _ _).trans_lt hlen), hdiv]
    rfl
  have hquot : ∀ {x : BitVec 64} {n : Nat}, x.toNat = n → n < 2 ^ 62 → (x / 4).toInt = ↑(n / 4) := by
    intro x n hx hn
    have hdiv : (x / 4).toNat = n / 4 := by
      rw [BitVec.toNat_udiv, hx]
      rfl
    rw [BitVec.toInt_eq_toNat_of_lt (by omega), hdiv]
  unfold invertWordCount Sat.invertRangeBytes
  cases sat.invertRange with
  | full =>
      dsimp only
      exact hquot ((toNat_signExtend_of_lt (by omega)).trans hint) (by omega)
  | legacy =>
      dsimp only
      refine hquot ?_ (by omega)
      rw [BitVec.toNat_mul, BitVec.toNat_mul, hblocks]
      change sat.pageLength / 4096 * 512 % 2 ^ 64 * 4 % 2 ^ 64 = sat.pageLength / 4096 * 512 * 4
      omega

/-- A pass over a page is accepted, and its range is made of whole lines. -/
theorem Direction.invertPage_runs (d : Direction) {sat : Sat} (hlen : sat.pageLength < 2 ^ 31) {fuel : Nat}
    (hfuel : sat.pageLength ≤ fuel) (mem : Mem) {addr : Nat} (haddr : addr ≠ 0) :
    ∃ mem' trace, d.invertPage sat fuel mem addr = some (true, mem', trace) ∧
      Inverts d addr (sat.invertRangeBytes / 4) 16 mem mem' trace := by
  obtain ⟨n, hwords, hle⟩ := sat.invertRangeBytes_eq
  obtain ⟨k, hw, hl⟩ := sat.pageLength_eq
  have hlines : sat.invertRangeBytes / 4 = n * 16 := by omega
  have hunfold : d.invertPage sat fuel mem addr = d.invertWords fuel mem addr (invertWordCount sat) 16 true := by
    cases d with
    | up => rfl
    | down => rfl
  rw [hunfold, invertWordCount_eq hlen, hlines]
  have hpos : 0 < k := by
    obtain ⟨e, he⟩ := sat.length_eq
    have := Nat.two_pow_pos e
    omega
  exact d.invertWords_runs (by omega) mem haddr (by omega)

/-- Two passes over one range, whatever their directions. -/
theorem Inverts.inverts {d d' : Direction} {mem' mem'' : Mem} {trace trace' : List Event}
    (h : Inverts d base words interval mem mem' trace) (h' : Inverts d' base words interval mem' mem'' trace') :
    mem'' = mem := by
  refine mem_ext fun v => ?_
  rw [h'.units, h.units]
  split
  · exact BitVec.not_not
  · rfl

/-- The workers' model of a pass is its memory. -/
theorem Direction.invertPage_mem (d : Direction) {sat : Sat} (hlen : sat.pageLength < 2 ^ 31) {fuel : Nat}
    (hfuel : sat.pageLength ≤ fuel) (mem : Mem) {base : Nat} (hbase : 0 < base) :
    (d.invertPage sat fuel mem (2 * base)).map (fun r => r.2.1) = sat.invertPageUp mem base ∧
    sat.invertPageDown mem base = sat.invertPageUp mem base := by
  obtain ⟨mem', trace, hrun, hinv⟩ := d.invertPage_runs hlen hfuel mem (by omega : 2 * base ≠ 0)
  obtain ⟨n, hwords, -⟩ := sat.invertRangeBytes_eq
  have hup : sat.invertPageUp mem base = some (invertRegion mem base (8 * n)) := by
    rw [Sat.invertPageUp, hwords, invertWordsUp_eq hbase]
  have hmem : mem' = invertRegion mem base (8 * n) := by
    refine mem_ext fun v => ?_
    rw [hinv.units, unitOf_invertRegion, hwords]
  refine ⟨?_, ?_⟩
  · rw [hrun, hup, hmem]
    rfl
  · rw [hup, Sat.invertPageDown, hwords, invertWordsDown_eq hbase]

/-- **The inversion passes.** Over a page they are accepted and invert the range; up, down, down, up
restores the page. In general the functions do nothing or invert what they were given. -/
theorem invert_passes (sat : Sat) (hlen : sat.pageLength < 2 ^ 31) (mem : Mem) {addr : Nat} (haddr : addr ≠ 0)
    {fuel : Nat} (hfuel : sat.pageLength ≤ fuel) :
    (∀ d : Direction, ∃ mem' trace, d.invertPage sat fuel mem addr = some (true, mem', trace) ∧
      Inverts d addr (sat.invertRangeBytes / 4) 16 mem mem' trace) ∧
    (∃ m₁ m₂ m₃ t₁ t₂ t₃ t₄, invertPageUp sat fuel mem addr = some (true, m₁, t₁) ∧
      invertPageDown sat fuel m₁ addr = some (true, m₂, t₂) ∧
      invertPageDown sat fuel m₂ addr = some (true, m₃, t₃) ∧
      invertPageUp sat fuel m₃ addr = some (true, mem, t₄)) ∧
    ∀ (d : Direction) (m : Mem) (base : Nat) (words flushIntervalWords : Int) (hint : Bool),
      (∀ f, d.invertWords f m base words flushIntervalWords hint = some (false, m, [])) ∨
      0 ≤ words ∧ 0 < flushIntervalWords ∧ ∀ f, words.toNat < f →
        ∃ m' trace, d.invertWords f m base words flushIntervalWords hint = some (true, m', trace) ∧
          Inverts d base words.toNat flushIntervalWords.toNat m m' trace := by
  have hpage : ∀ (d : Direction) (m : Mem), ∃ m' trace, d.invertPage sat fuel m addr = some (true, m', trace) ∧
      Inverts d addr (sat.invertRangeBytes / 4) 16 m m' trace :=
    fun d m => d.invertPage_runs hlen hfuel m haddr
  refine ⟨fun d => hpage d mem, ?_, Direction.invertWords_total⟩
  obtain ⟨m₁, t₁, hrun₁, hinv₁⟩ := hpage .up mem
  obtain ⟨m₂, t₂, hrun₂, hinv₂⟩ := hpage .down m₁
  obtain ⟨m₃, t₃, hrun₃, hinv₃⟩ := hpage .down m₂
  obtain ⟨m₄, t₄, hrun₄, hinv₄⟩ := hpage .up m₃
  -- the second pass undoes the first, and the fourth the third
  rw [hinv₃.inverts hinv₄, hinv₁.inverts hinv₂] at hrun₄
  exact ⟨m₁, m₂, m₃, t₁, t₂, t₃, t₄, hrun₁, hrun₂, hrun₃, hrun₄⟩

/-- The downward pass over a page of 256 units. -/
theorem invert_passes_small :
    ∃ mem' trace, invertPageDown (Sat.small 1 0) 1024 (fun _ => 0) 16 = some (true, mem', trace) ∧
      trace.filterMap Event.stored = (List.range' 16 256).reverse ∧ unitOf mem' 16 = BitVec.allOnes 32 := by
  obtain ⟨hpage, -, -⟩ := invert_passes (Sat.small 1 0) (by decide : 1024 < 2 ^ 31) (fun _ => 0)
    (by decide : 16 ≠ 0) (Nat.le_refl 1024)
  obtain ⟨mem', trace, hrun, hinv⟩ := hpage .down
  refine ⟨mem', trace, hrun, hinv.stores, ?_⟩
  rw [hinv.units, if_pos (by decide)]
  decide

end InvertWorkload

end StressAppTest
