import StressAppTest.Memory.CheckRegion

/-!
# The search for a block of another pattern (`CheckRegion` of `worker.cc`)

When more words are wrong than `CheckRegion` can record, it looks for an explanation by another
pattern: one range of words that are right for that pattern, everything else as expected. The
scan is greedy: it opens the range at the first wrong word and closes it at the first word that
the other pattern does not explain. Where the two patterns have the same word, this choice
extends the range; no valid range is lost by it.

* `blockScan_inv`: what the scan has established in each of its states.
* `block_error_iff`: a line is printed exactly when there is such a range, and the range it
  prints starts at the first wrong word and holds all of them.
-/

namespace StressAppTest.Sat

/-- Words `s` to `e` are those of `possible`, all others of the `n` words are as expected. -/
structure Split (actual expected possible : Nat → Word64) (n s e : Nat) : Prop where
  le : s ≤ e
  lt : e < n
  inside : ∀ i, s ≤ i → i ≤ e → actual i = possible i
  outside : ∀ i < n, i < s ∨ e < i → actual i = expected i

variable {actual expected possible : Nat → Word64} {n : Nat}

/-- The range that the scan has opened, after `i` words. -/
structure Opened (actual expected possible : Nat → Word64) (i s e : Nat) : Prop
    extends Split actual expected possible i s e where
  wrong : actual s ≠ expected s

/-- What the scan of `n` words has established before word `i`. -/
def ScanInv (actual expected possible : Nat → Word64) (n i : Nat) (s : BlockScan) : Prop :=
  match s.state with
  | .good => ∀ j < i, actual j = expected j
  | .bad => Opened actual expected possible i s.badstart s.badend ∧ s.badend + 1 = i
  | .goodAgain => Opened actual expected possible i s.badstart s.badend ∧
      s.badend + 1 < i ∧ actual (s.badend + 1) ≠ possible (s.badend + 1)
  | .noMatch => ∀ s e, ¬ Split actual expected possible n s e

/-- A wrong word lies in the range of every split. -/
theorem Split.range_of_wrong {s e i : Nat} (h : Split actual expected possible n s e) (hi : i < n)
    (hwrong : actual i ≠ expected i) : s ≤ i ∧ i ≤ e := by
  by_contra hout
  exact hwrong (h.outside i hi (by omega))

/-- A word that neither pattern explains excludes every split. -/
theorem not_split_of_neither {i : Nat} (hi : i < n) (hexpected : actual i ≠ expected i)
    (hpossible : actual i ≠ possible i) (s e : Nat) : ¬ Split actual expected possible n s e := by
  intro h
  obtain ⟨hs, he⟩ := h.range_of_wrong hi hexpected
  exact hpossible (h.inside i hs he)

/-- A wrong word after the range has been closed excludes every split: the word that closed it
would lie inside. -/
theorem not_split_of_closed {i b e : Nat} (hi : i < n) (hexpected : actual i ≠ expected i)
    (hopened : Opened actual expected possible i b e) (hclosed : e + 1 < i)
    (hpossible : actual (e + 1) ≠ possible (e + 1)) (s e' : Nat) :
    ¬ Split actual expected possible n s e' := by
  intro h
  have hb := h.range_of_wrong (by have := hopened.le; omega) hopened.wrong
  have hi' := h.range_of_wrong hi hexpected
  have hle := hopened.le
  exact hpossible (h.inside (e + 1) (by omega) (by omega))

/-- The first wrong word opens the range. -/
theorem opened_first {i : Nat} (h : ∀ j < i, actual j = expected j) (hexp : actual i ≠ expected i)
    (hposs : actual i = possible i) : Opened actual expected possible (i + 1) i i where
  le := Nat.le_refl i
  lt := Nat.lt_succ_self i
  inside j hle hge := by
    obtain rfl : j = i := by omega
    exact hposs
  outside j hj hout := h j (by omega)
  wrong := hexp

/-- The range grows by a word of the other pattern. -/
theorem Opened.extend {i s e : Nat} (h : Opened actual expected possible i s e) (hend : e + 1 = i)
    (hposs : actual i = possible i) : Opened actual expected possible (i + 1) s i where
  le := by
    have := h.le
    omega
  lt := Nat.lt_succ_self i
  inside j hle hge := by
    by_cases hj : j = i
    · rw [hj]
      exact hposs
    · exact h.inside j hle (by omega)
  outside j hj hout := by
    have := h.le
    exact h.outside j (by omega) (by omega)
  wrong := h.wrong

/-- A word as expected leaves it. -/
theorem Opened.skip {i s e : Nat} (h : Opened actual expected possible i s e)
    (hexp : actual i = expected i) : Opened actual expected possible (i + 1) s e where
  le := h.le
  lt := Nat.lt_succ_of_lt h.lt
  inside := h.inside
  outside j hj hout := by
    by_cases hji : j = i
    · rw [hji]
      exact hexp
    · exact h.outside j (by omega) hout
  wrong := h.wrong

/-- **The scan** keeps its invariant to the end. -/
theorem blockScan_inv (k : Nat) {i : Nat} {s : BlockScan} (hi : i + k = n)
    (h : ScanInv actual expected possible n i s) :
    ScanInv actual expected possible n n (blockScan actual expected possible k i s) := by
  induction k generalizing i s with
  | zero =>
      rw [Nat.add_zero] at hi
      rw [← hi] at h ⊢
      exact h
  | succ k ih =>
      have hin : i < n := by omega
      have hk : i + 1 + k = n := by omega
      obtain ⟨state, b, e⟩ := s
      cases state with
      | good =>
          rw [blockScan]
          dsimp only
          change ∀ j < i, actual j = expected j at h
          split
          · next hexp =>
            refine ih hk ?_
            change ∀ j < i + 1, actual j = expected j
            intro j hj
            rcases Nat.lt_succ_iff_lt_or_eq.mp hj with hlt | rfl
            · exact h j hlt
            · exact hexp
          · next hexp =>
            split
            · next hposs => exact ih hk ⟨opened_first h hexp hposs, rfl⟩
            · next hposs => exact not_split_of_neither hin hexp hposs
      | bad =>
          rw [blockScan]
          dsimp only
          obtain ⟨hopened, hend⟩ := h
          split
          · next hposs => exact ih hk ⟨hopened.extend hend hposs, rfl⟩
          · next hposs =>
            split
            · next hexp =>
              refine ih hk ⟨hopened.skip hexp, Nat.lt_succ_of_le (Nat.le_of_eq hend), ?_⟩
              change actual (e + 1) ≠ possible (e + 1)
              change e + 1 = i at hend
              rw [hend]
              exact hposs
            · next hexp => exact not_split_of_neither hin hexp hposs
      | goodAgain =>
          rw [blockScan]
          dsimp only
          obtain ⟨hopened, hclosed, hposs⟩ := h
          split
          · next hexp => exact ih hk ⟨hopened.skip hexp, Nat.lt_succ_of_lt hclosed, hposs⟩
          · next hexp => exact not_split_of_closed hin hexp hopened hclosed hposs
      | noMatch =>
          rw [blockScan]
          exact h

variable (actual expected possible) in
/-- The scan of a region with a wrong word ends with a range exactly when there is one. -/
theorem blockScan_iff {i : Nat} (hi : i < n) (hwrong : actual i ≠ expected i) :
    ((blockScan actual expected possible n 0 ⟨.good, 0, 0⟩).state = .goodAgain ∨
      (blockScan actual expected possible n 0 ⟨.good, 0, 0⟩).state = .bad) ↔
      ∃ s e, Split actual expected possible n s e := by
  have hinv : ScanInv actual expected possible n n (blockScan actual expected possible n 0 ⟨.good, 0, 0⟩) :=
    blockScan_inv n (Nat.zero_add n) fun j hj => absurd hj (Nat.not_lt_zero j)
  unfold ScanInv at hinv
  cases hstate : (blockScan actual expected possible n 0 ⟨.good, 0, 0⟩).state with
  | good =>
      rw [hstate] at hinv
      exact absurd (hinv i hi) hwrong
  | bad =>
      rw [hstate] at hinv
      simp only [reduceCtorEq, or_true, true_iff]
      exact ⟨_, _, hinv.1.toSplit⟩
  | goodAgain =>
      rw [hstate] at hinv
      simp only [reduceCtorEq, or_false, true_iff]
      exact ⟨_, _, hinv.1.toSplit⟩
  | noMatch =>
      rw [hstate] at hinv
      simp only [reduceCtorEq, or_self, false_iff]
      rintro ⟨s, e, hsplit⟩
      exact hinv s e hsplit

variable (actual expected possible) in
/-- The range it ends with. -/
theorem blockScan_opened
    (h : (blockScan actual expected possible n 0 ⟨.good, 0, 0⟩).state = .goodAgain ∨
      (blockScan actual expected possible n 0 ⟨.good, 0, 0⟩).state = .bad) :
    Opened actual expected possible n (blockScan actual expected possible n 0 ⟨.good, 0, 0⟩).badstart
      (blockScan actual expected possible n 0 ⟨.good, 0, 0⟩).badend := by
  have hinv : ScanInv actual expected possible n n (blockScan actual expected possible n 0 ⟨.good, 0, 0⟩) :=
    blockScan_inv n (Nat.zero_add n) fun j hj => absurd hj (Nat.not_lt_zero j)
  unfold ScanInv at hinv
  rcases h with h | h
  · rw [h] at hinv
    exact hinv.1
  · rw [h] at hinv
    exact hinv.1

/-! ## The lines of `CheckRegion` -/

theorem expected_of_untagged {sat : Sat} {r : Region} (htag : sat.tagMode = false) :
    sat.expected r = patternData r.pattern r.patternOffset := by
  funext i
  rw [Sat.expected, regionWord, htag]
  rfl

theorem blockErrorOf_pat {r : Region} {mem : Mem} {pat : Nat} {alt : Pattern} {line : BlockError}
    (h : blockErrorOf r mem pat alt = some line) : line.pat = pat := by
  unfold blockErrorOf at h
  dsimp only at h
  split at h
  · cases h
  · split at h
    · cases h
      rfl
    · cases h

/-- The lines for one entry of the list are those of its own search. -/
theorem mem_blockErrorsOf {sat : Sat} {r : Region} {mem : Mem} {pat : Nat} {alt : Pattern}
    (halt : sat.patternlist.getPattern pat = some alt) (line : BlockError) :
    (line ∈ sat.blockErrorsOf r mem ∧ line.pat = pat) ↔ blockErrorOf r mem pat alt = some line := by
  simp only [blockErrorsOf, List.mem_filterMap, List.mem_range]
  constructor
  · rintro ⟨⟨pat', -, hsome⟩, hpat⟩
    obtain ⟨alt', halt', hline⟩ := Option.bind_eq_some_iff.mp hsome
    obtain rfl : pat' = pat := (blockErrorOf_pat hline).symm.trans hpat
    rw [halt, Option.some.injEq] at halt'
    rw [halt']
    exact hline
  · intro hline
    refine ⟨⟨pat, ?_, ?_⟩, blockErrorOf_pat hline⟩
    · exact (List.getElem?_eq_some_iff.mp halt).1
    · rw [halt, Option.bind_some, hline]

/-- **Block errors.** With more wrong words than can be recorded, the line for another pattern
of the list is printed if and only if one range of its words in the expected ones explains the
region. The printed range starts at the first wrong word and holds every wrong word. -/
theorem block_error_iff (sat : Sat) (r : Region) (frequency : Bool → Nat → Int) (w : Reports)
    (htag : sat.tagMode = false) (hmany : kErrorLimit < (sat.mismatches r w.mem).length) {pat : Nat}
    {alt : Pattern} (halt : sat.patternlist.getPattern pat = some alt) (hother : r.patternId ≠ some pat) :
    ∃ w' errors lines, sat.reportRegion frequency r w = some (w', errors) ∧
      w'.blockErrors = w.blockErrors ++ lines ∧
      ((∃ line ∈ lines, line.pat = pat) ↔ ∃ s e, Split (fun i => w.mem (r.addr + i)) (sat.expected r)
        (patternData alt r.patternOffset) (r.length / 8) s e) ∧
      ∀ line ∈ lines, line.pat = pat → ∃ first last,
        line = ⟨pat, r.addr + first, alt.name, r.pattern.name, (last - first + 1) * 8,
          r.offset + first * 8, r.offset + last * 8⟩ ∧
        w.mem (r.addr + first) ≠ sat.expected r first ∧
        (∀ i < first, w.mem (r.addr + i) = sat.expected r i) ∧
        ∀ i < r.length / 8, w.mem (r.addr + i) ≠ sat.expected r i → first ≤ i ∧ i ≤ last := by
  obtain ⟨w', hrun, hrep⟩ := reportRegion_repaired sat r frequency w
  have hlines : sat.blockLines r w.mem = sat.blockErrorsOf r w.mem := if_pos ⟨hmany, htag⟩
  refine ⟨w', _, sat.blockErrorsOf r w.mem, hrun, by rw [hrep.blockErrors, hlines], ?_⟩
  have hexpected := expected_of_untagged (r := r) htag
  -- a wrong word, so that the scan does not end in its first state
  obtain ⟨i, hi⟩ : ∃ i, i ∈ sat.mismatches r w.mem :=
    List.exists_mem_of_length_pos (by omega)
  rw [mem_mismatches, hexpected] at hi
  have hscan := blockScan_iff (fun i => w.mem (r.addr + i)) (patternData r.pattern r.patternOffset)
    (patternData alt r.patternOffset) hi.1 hi.2
  have hopened := blockScan_opened (n := r.length / 8) (fun i => w.mem (r.addr + i))
    (patternData r.pattern r.patternOffset) (patternData alt r.patternOffset)
  obtain ⟨scan, hs⟩ : ∃ scan, blockScan (fun i => w.mem (r.addr + i))
    (patternData r.pattern r.patternOffset) (patternData alt r.patternOffset) (r.length / 8) 0
    ⟨.good, 0, 0⟩ = scan := ⟨_, rfl⟩
  have hof : blockErrorOf r w.mem pat alt = if scan.state = .goodAgain ∨ scan.state = .bad then
      some ⟨pat, r.addr + scan.badstart, alt.name, r.pattern.name, (scan.badend - scan.badstart + 1) * 8,
        r.offset + scan.badstart * 8, r.offset + scan.badend * 8⟩
    else none := by
    simp only [blockErrorOf, hs]
    exact if_neg hother
  rw [hs] at hscan hopened
  rw [hexpected]
  constructor
  · rw [← hscan]
    constructor
    · rintro ⟨line, hmem, hpat⟩
      by_contra hnone
      have hline := (mem_blockErrorsOf halt line).mp ⟨hmem, hpat⟩
      rw [hof, if_neg hnone] at hline
      cases hline
    · intro hstate
      rw [if_pos hstate] at hof
      obtain ⟨hmem, hpat⟩ := (mem_blockErrorsOf halt _).mpr hof
      exact ⟨_, hmem, hpat⟩
  · intro line hmem hpat
    have hline := (mem_blockErrorsOf halt line).mp ⟨hmem, hpat⟩
    rw [hof] at hline
    split at hline
    · next hstate =>
      have hrange := hopened hstate
      cases hline
      refine ⟨scan.badstart, scan.badend, rfl, hrange.wrong, ?_, ?_⟩
      · intro j hj
        exact hrange.outside j (by have := hrange.le; have := hrange.lt; omega) (Or.inl hj)
      · intro j hj hwrong
        exact hrange.range_of_wrong hj hwrong
    · cases hline

/-- Zeros in the place of ones, in 130 words. -/
def zeroedRegion : Region :=
  ⟨8, .ones, some 40, 0, 1040, 0, 0, -1, "check", "slow_compare", 0⟩

theorem zeroedRegion_mismatches : (Sat.small 1 0).mismatches zeroedRegion (fun _ => 0) = List.range' 0 130 := by
  refine List.filter_eq_self.mpr fun i _ => ?_
  rw [decide_eq_true_eq, expected_of_untagged rfl]
  change 0 ≠ datacast (Pattern.ones.pattern _) (Pattern.ones.pattern _)
  rw [Pattern.ones_pattern, Pattern.ones_pattern]
  decide

/-- The entry 32 of the list is the pattern of zeros. -/
theorem block_error_iff_zeroed : ∃ alt, (Sat.small 1 0).patternlist.getPattern 32 = some alt ∧
    ∃ w' errors lines,
      (Sat.small 1 0).reportRegion (fun _ _ => -1) zeroedRegion ⟨fun _ => 0, 0, [], [], []⟩ =
        some (w', errors) ∧ w'.blockErrors = [] ++ lines ∧
      ((∃ line ∈ lines, line.pat = 32) ↔ ∃ s e, Split (fun _ => 0) ((Sat.small 1 0).expected zeroedRegion)
        (patternData alt 0) 130 s e) := by
  refine ⟨_, rfl, ?_⟩
  have hmany : kErrorLimit < ((Sat.small 1 0).mismatches zeroedRegion fun _ => 0).length := by
    rw [zeroedRegion_mismatches, List.length_range']
    decide
  obtain ⟨w', errors, lines, hrun, hlines, hiff, -⟩ := block_error_iff (Sat.small 1 0) zeroedRegion
    (fun _ _ => -1) ⟨fun _ => 0, 0, [], [], []⟩ rfl hmany
    (show (Sat.small 1 0).patternlist.getPattern 32 = some _ from rfl) (by decide)
  exact ⟨w', errors, lines, hrun, hlines, hiff⟩

end StressAppTest.Sat
