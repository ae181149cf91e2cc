import Mathlib.Data.Set.Card
import Mathlib.Logic.Function.Basic

/-!
# A vector and its positions

The first `size` slots of a vector hold the keys of a table, and `pos` gives the slot of each key.
A key is inserted in the slot after the last one, and removed by moving the last key into its slot.
-/

/-- The first `size` slots, and the slot of each key, are inverse to each other. -/
structure SlotIndex {α : Type _} (slots : List α) (size : Nat) (pos : α → Option Nat) : Prop where
  size_le : size ≤ slots.length
  pos_iff : ∀ a p, pos a = some p ↔ p < size ∧ slots[p]? = some a

namespace SlotIndex

variable {α : Type _} {slots : List α} {size : Nat} {pos : α → Option Nat}

theorem empty (slots : List α) : SlotIndex slots 0 (fun _ => none) :=
  ⟨Nat.zero_le _, fun _ _ => by simp⟩

theorem getElem?_of_pos (h : SlotIndex slots size pos) {a : α} {p : Nat} (hp : pos a = some p) :
    slots[p]? = some a := ((h.pos_iff a p).mp hp).2

theorem pos_lt (h : SlotIndex slots size pos) {a : α} {p : Nat} (hp : pos a = some p) : p < size :=
  ((h.pos_iff a p).mp hp).1

theorem exists_key (h : SlotIndex slots size pos) {p : Nat} (hp : p < size) :
    ∃ a, slots[p]? = some a ∧ pos a = some p := by
  have hlt : p < slots.length := Nat.lt_of_lt_of_le hp h.size_le
  exact ⟨slots[p], List.getElem?_eq_getElem hlt,
    (h.pos_iff _ _).mpr ⟨hp, List.getElem?_eq_getElem hlt⟩⟩

/-- There are as many keys as slots in use. -/
theorem ncard_keys (h : SlotIndex slots size pos) : {a | (pos a).isSome}.ncard = size := by
  refine Set.ncard_eq_of_bijective (fun p hp => slots.get ⟨p, Nat.lt_of_lt_of_le hp h.size_le⟩) ?_ ?_ ?_
  · intro a ha
    obtain ⟨p, hp⟩ := Option.isSome_iff_exists.mp ha
    have hget := h.getElem?_of_pos hp
    rw [List.getElem?_eq_getElem (Nat.lt_of_lt_of_le (h.pos_lt hp) h.size_le), Option.some.injEq] at hget
    exact ⟨p, h.pos_lt hp, hget⟩
  · intro p hp
    obtain ⟨a, hget, hpos⟩ := h.exists_key hp
    rw [List.getElem?_eq_getElem (Nat.lt_of_lt_of_le hp h.size_le), Option.some.injEq] at hget
    simp only [Set.mem_ofPred_eq, List.get_eq_getElem]
    rw [hget, hpos]
    rfl
  · intro p q hp hq heq
    obtain ⟨a, hget, hpos⟩ := h.exists_key hp
    obtain ⟨b, hget', hpos'⟩ := h.exists_key hq
    rw [List.getElem?_eq_getElem (Nat.lt_of_lt_of_le hp h.size_le), Option.some.injEq] at hget
    rw [List.getElem?_eq_getElem (Nat.lt_of_lt_of_le hq h.size_le), Option.some.injEq] at hget'
    simp only [List.get_eq_getElem] at heq
    rw [← hget, heq, hget', hpos'] at hpos
    exact (Option.some.inj hpos).symm

variable [DecidableEq α]

/-- The vector with a key in the slot `size`. -/
def push (slots : List α) (size : Nat) (a : α) : List α :=
  if slots.length ≤ size then slots ++ [a] else slots.set size a

omit [DecidableEq α] in
theorem getElem?_push (hsize : size ≤ slots.length) (a : α) (p : Nat) (hp : p ≤ size) :
    (push slots size a)[p]? = if p = size then some a else slots[p]? := by
  rw [push]
  split
  · next hle =>
    have heq : slots.length = size := Nat.le_antisymm hle hsize
    subst heq
    by_cases hpe : p = slots.length
    · subst hpe
      simp
    · rw [if_neg hpe, List.getElem?_append_left (by omega)]
  · next hlt =>
    rw [List.getElem?_set]
    by_cases hpe : p = size
    · subst hpe
      simp only [if_true]
      rw [if_pos (by omega)]
    · rw [if_neg (Ne.symm hpe), if_neg hpe]

omit [DecidableEq α] in
theorem length_push (hsize : size ≤ slots.length) (a : α) : size + 1 ≤ (push slots size a).length := by
  rw [push]
  split
  · simp
    omega
  · simp
    omega

/-- Inserting a key in the next slot. -/
theorem insert (h : SlotIndex slots size pos) {a : α} (ha : pos a = none) :
    SlotIndex (push slots size a) (size + 1) (Function.update pos a (some size)) := by
  refine ⟨length_push h.size_le a, ?_⟩
  intro b p
  by_cases hp : p ≤ size
  · rw [getElem?_push h.size_le a p hp]
    by_cases hb : b = a
    · subst hb
      rw [Function.update_self]
      constructor
      · intro hpos
        rw [← Option.some.inj hpos]
        simp
      · rintro ⟨-, hget⟩
        split at hget
        · next hpe => rw [hpe]
        · next hpe =>
          have hpos := (h.pos_iff b p).mpr ⟨by omega, hget⟩
          rw [ha] at hpos
          exact absurd hpos nofun
    · rw [Function.update_of_ne hb, h.pos_iff b p]
      by_cases hpe : p = size
      · subst hpe
        simp [Ne.symm hb]
      · rw [if_neg hpe]
        constructor
        · rintro ⟨hlt, hget⟩
          exact ⟨by omega, hget⟩
        · rintro ⟨hlt, hget⟩
          exact ⟨by omega, hget⟩
  · have hnot : ∀ x, Function.update pos a (some size) x ≠ some p := by
      intro x hx
      by_cases hxa : x = a
      · subst hxa
        rw [Function.update_self, Option.some.injEq] at hx
        omega
      · rw [Function.update_of_ne hxa] at hx
        have hlt := h.pos_lt hx
        omega
    constructor
    · intro hpos
      exact absurd hpos (hnot b)
    · rintro ⟨hlt, -⟩
      omega

/-- Removing a key by moving the last one into its slot. -/
theorem swapRemove (h : SlotIndex slots size pos) {a last : α} {p : Nat} (hp : pos a = some p)
    (hlast : slots[size - 1]? = some last) :
    SlotIndex (slots.set p last) (size - 1)
      (Function.update (Function.update pos last (some p)) a none) := by
  have hpsize := h.pos_lt hp
  have hlen := h.size_le
  have hlastPos : pos last = some (size - 1) := (h.pos_iff _ _).mpr ⟨by omega, hlast⟩
  have hplen : p < slots.length := by omega
  refine ⟨by rw [List.length_set]; omega, ?_⟩
  intro b q
  rw [List.getElem?_set, if_pos hplen]
  by_cases hb : b = a
  · subst hb
    rw [Function.update_self]
    constructor
    · exact nofun
    · rintro ⟨hq, hget⟩
      exfalso
      split at hget
      · next hpq =>
        -- the removed key would be the last one, whose slot is no longer in use
        rw [Option.some.injEq] at hget
        rw [← hget, hlastPos, Option.some.injEq] at hp
        omega
      · next hpq =>
        have hpos := (h.pos_iff b q).mpr ⟨by omega, hget⟩
        rw [hp] at hpos
        exact hpq (Option.some.inj hpos)
  · rw [Function.update_of_ne hb]
    by_cases hl : b = last
    · subst hl
      have hne : p ≠ size - 1 := by
        rintro rfl
        exact hb (Option.some.inj (hlast.symm.trans (h.getElem?_of_pos hp)))
      rw [Function.update_self]
      constructor
      · intro hpq
        rw [Option.some.injEq] at hpq
        subst hpq
        exact ⟨by omega, if_pos rfl⟩
      · rintro ⟨hq, hget⟩
        split at hget
        · next hpq => rw [hpq]
        · have hpos := (h.pos_iff b q).mpr ⟨by omega, hget⟩
          rw [hlastPos, Option.some.injEq] at hpos
          omega
    · rw [Function.update_of_ne hl, h.pos_iff b q]
      constructor
      · rintro ⟨hq, hget⟩
        have hqp : p ≠ q := by
          rintro rfl
          exact hb (Option.some.inj (hget.symm.trans (h.getElem?_of_pos hp)))
        have hqlast : q ≠ size - 1 := by
          rintro rfl
          exact hl (Option.some.inj (hget.symm.trans hlast))
        rw [if_neg hqp]
        exact ⟨by omega, hget⟩
      · rintro ⟨hq, hget⟩
        split at hget
        · exact absurd (Option.some.inj hget).symm hl
        · exact ⟨by omega, hget⟩

end SlotIndex
