import Mathlib.Data.Set.Card
import StressAppTest.Pattern
import StressAppTest.Library.Weighted

/-!
# The weighted draw (`PatternList::GetRandomPattern`)

Without a `-P` sequence a pattern is drawn by taking the weights off a target that starts at a
residue of `random()`, plus one. The target is an `int` and the weights are unsigned, so each
difference is taken modulo `2 ^ 32`; while the weights sum up to less than `2 ^ 31` this changes
nothing, and the draw finds the owner of the residue in the sense of `Library.Weighted`.
-/

namespace StressAppTest.PatternList

/-- `weightcount_` -/
def weightcount (l : PatternList) : Nat := (l.patterns.map Pattern.weight).sum

/-- The loop over the patterns, from pattern `i` on. -/
def drawFrom (target : Int) (i : Nat) : List Pattern → Option Nat
  | [] => none
  | p :: ps =>
      let target := (target - p.weight).bmod (2 ^ 32)
      if target ≤ 0 then some i else drawFrom target (i + 1) ps

/-- The index of the pattern that is drawn. -/
def drawIndex (l : PatternList) (random : Nat) : Option Nat :=
  drawFrom ((random % l.weightcount : Nat) + 1) 0 l.patterns

/-- A difference of an `int` and a weight below `2 ^ 31`. -/
theorem bmod_sub_weight {r w : Nat} (hr : r + 1 < 2 ^ 31) (hw : w < 2 ^ 31) :
    ((r : Int) + 1 - w).bmod (2 ^ 32) = (r : Int) + 1 - w :=
  Int.bmod_eq_of_le (by omega) (by omega)

/-- The loop finds the owner of its residue. -/
theorem drawFrom_eq {ps : List Pattern} {r i : Nat} (hr : r < (ps.map Pattern.weight).sum)
    (hsum : (ps.map Pattern.weight).sum < 2 ^ 31) :
    drawFrom ((r : Int) + 1) i ps =
      (Weighted.owner (ps.map Pattern.weight) r).map (i + ·) := by
  induction ps generalizing r i with
  | nil => exact absurd hr (Nat.not_lt_zero r)
  | cons p ps ih =>
      rw [List.map_cons, List.sum_cons] at hr hsum
      rw [List.map_cons, Weighted.owner, drawFrom, bmod_sub_weight (by omega) (by omega)]
      by_cases hlt : r < p.weight
      · rw [if_pos (by omega), if_pos hlt]
        rfl
      · have htarget : (r : Int) + 1 - p.weight = ((r - p.weight : Nat) : Int) + 1 := by omega
        rw [if_neg (by omega), if_neg hlt, htarget, ih (by omega) (by omega), Option.map_map]
        congr 1
        funext j
        exact Nat.add_right_comm i 1 j

/-- The pattern that is returned, by its index. -/
theorem pickWeighted_eq {ps : List Pattern} {r : Nat} (hr : r < (ps.map Pattern.weight).sum) :
    pickWeighted ((r : Int) + 1) ps =
      (Weighted.owner (ps.map Pattern.weight) r).bind fun i => ps[i]? := by
  induction ps generalizing r with
  | nil => rfl
  | cons p ps ih =>
      rw [List.map_cons, List.sum_cons] at hr
      rw [List.map_cons, Weighted.owner, pickWeighted]
      by_cases hlt : r < p.weight
      · rw [if_pos (by omega), if_pos hlt]
        rfl
      · have htarget : (r : Int) + 1 - p.weight = ((r - p.weight : Nat) : Int) + 1 := by omega
        rw [if_neg (by omega), if_neg hlt, htarget, ih (by omega), Option.bind_map]
        rfl

theorem drawIndex_eq (l : PatternList) (hsum : l.weightcount < 2 ^ 31) (random : Nat) :
    l.drawIndex random =
      Weighted.owner (l.patterns.map Pattern.weight) (random % l.weightcount) := by
  have hdraw := drawFrom_eq (i := 0) (Nat.mod_lt random l.weight_pos) hsum
  simp only [Nat.zero_add, Option.map_id'] at hdraw
  exact hdraw

/-- A draw without a sequence returns a pattern of positive weight, and each pattern is drawn by as
many residues of `random()` as its weight says. -/
theorem weighted_draw (l : PatternList) (hids : l.selectedPatternIds = [])
    (hsum : l.weightcount < 2 ^ 31) :
    (∀ cursor random, ∃ i p, l.drawIndex random = some i ∧ l.getPattern i = some p ∧
      l.getRandomPattern cursor random = some p ∧ 0 < p.weight) ∧
    ∀ i p, l.getPattern i = some p →
      {r | r < l.weightcount ∧ ∀ random, random % l.weightcount = r →
        l.drawIndex random = some i}.ncard = p.weight := by
  constructor
  · intro cursor random
    have hlt := Nat.mod_lt random l.weight_pos
    obtain ⟨i, hi⟩ := Weighted.exists_owner hlt
    obtain ⟨w, hw, -⟩ := Weighted.owner_eq_some_iff.mp hi
    have hpos := Weighted.weight_pos_of_owner hi hw
    rw [List.getElem?_map, Option.map_eq_some_iff] at hw
    obtain ⟨p, hp, rfl⟩ := hw
    refine ⟨i, p, (drawIndex_eq l hsum random).trans hi, hp, ?_, hpos⟩
    rw [getRandomPattern, hids]
    simp only
    rw [pickWeighted_eq hlt, hi]
    exact hp
  · intro i p hp
    have hw : (l.patterns.map Pattern.weight)[i]? = some p.weight := by
      rw [List.getElem?_map]
      exact congrArg (Option.map Pattern.weight) hp
    rw [← Weighted.card_owner hw, ← Set.ncard_coe_finset]
    congr 1
    ext r
    simp only [Set.mem_ofPred_eq, Finset.coe_filter, Finset.mem_range]
    refine and_congr_right fun hr => ?_
    have hmod : r % l.weightcount = r := Nat.mod_eq_of_lt hr
    constructor
    · intro h
      have hdraw := h r hmod
      rw [drawIndex_eq l hsum, hmod] at hdraw
      exact hdraw
    · intro h random hrandom
      rw [drawIndex_eq l hsum, hrandom]
      exact h

/-- The list of the program. -/
theorem weighted_draw_initialize : ∃ i p, (initializeList 0).drawIndex 1000 = some i ∧
    (initializeList 0).getPattern i = some p ∧ 0 < p.weight := by
  have hcount : (initializeList 0).weightcount < 2 ^ 31 := by
    rw [weightcount]
    change ((initPatterns 0).map Pattern.weight).sum < 2 ^ 31
    rw [weights_initPatterns]
    decide +kernel
  obtain ⟨i, p, hdraw, hp, -, hpos⟩ := (weighted_draw (initializeList 0) rfl hcount).1 0 1000
  exact ⟨i, p, hdraw, hp, hpos⟩

end StressAppTest.PatternList
