import Mathlib.Data.List.Rotate
import Mathlib.Logic.Relation
import StressAppTest.Pattern

/-!
# The `-P` sequence in a circle (`PatternList::GetRandomPattern`)

With a `-P` sequence each call fetches `selected_pattern_cursor_`, adds one to it in the same atomic
step, and returns the entry at the fetched cursor modulo the number of entries. The cursor is an
`unsigned int`: it wraps to zero after `2 ^ 32` increments, and the circle is closed there only if
the sequence comes to the same place.

* `cycled_mod_iff`: reading a list in a circle survives a wrap exactly when turning the list by the
  wrap gives the list again.
* `DrawInv.step`: what one step of one thread preserves.
-/

namespace StressAppTest.PatternList

/-! ## Lists read in a circle -/

section Circle

variable {α : Type*} {l : List α}

/-- Entry `k` of a list that starts over at its end. -/
def cycled (l : List α) (k : Nat) : Option α := l[k % l.length]?

theorem cycled_rotate (hl : l ≠ []) (m k : Nat) : cycled (l.rotate m) k = cycled l (k + m) := by
  have hlt : k % l.length < l.length := Nat.mod_lt _ (List.length_pos_iff.mpr hl)
  rw [cycled, List.length_rotate, List.getElem?_rotate hlt, Nat.mod_add_mod]
  rfl

theorem cycled_of_lt {k : Nat} (hk : k < l.length) : cycled l k = l[k]? := by
  rw [cycled, Nat.mod_eq_of_lt hk]

/-- A list that is the same after a turn by `m` is the same after any number of such turns. -/
theorem cycled_add_mul (hl : l ≠ []) {m : Nat} (hturn : l.rotate m = l) (k q : Nat) :
    cycled l (k + m * q) = cycled l k := by
  induction q with
  | zero => rfl
  | succ q ih => rw [Nat.mul_succ, ← Nat.add_assoc, ← cycled_rotate hl, hturn, ih]

/-- **Wrapping.** The position may be taken modulo `m` exactly when a turn by `m` changes nothing. -/
theorem cycled_mod_iff (hl : l ≠ []) {m : Nat} (hm : l.length ≤ m) :
    (∀ k, cycled l (k % m) = cycled l k) ↔ l.rotate m = l := by
  constructor
  · intro h
    refine List.ext_getElem? fun j => ?_
    by_cases hj : j < l.length
    · have hmod : (j + m) % m = j := by rw [Nat.add_mod_right, Nat.mod_eq_of_lt (by omega)]
      have hrotate := cycled_of_lt (l := l.rotate m) (k := j) (by rwa [List.length_rotate])
      rw [← hrotate, cycled_rotate hl, ← h, hmod, cycled_of_lt hj]
    · rw [List.getElem?_eq_none (by rw [List.length_rotate]; omega),
        List.getElem?_eq_none (by omega)]
  · intro hturn k
    rw [← cycled_add_mul hl hturn (k % m) (k / m), Nat.mod_add_div]

end Circle

/-! ## The calls of all threads -/

/-- The index of the pattern that a call with the fetched cursor returns. -/
def selectedId (l : PatternList) (cursor : Nat) : Option Nat := cycled l.selectedPatternIds cursor

/-- `GetRandomPattern` with a sequence returns the pattern of that index. -/
theorem getRandomPattern_eq_selectedId {l : PatternList} (hids : l.selectedPatternIds ≠ [])
    (cursor random : Nat) :
    l.getRandomPattern cursor random = (l.selectedId cursor).bind l.getPattern := by
  obtain ⟨id, ids, heq⟩ := List.exists_cons_of_ne_nil hids
  have hlt : cursor % (id :: ids).length < (id :: ids).length := Nat.mod_lt _ (by simp)
  simp only [getRandomPattern, selectedId, cycled, heq, List.getElem?_eq_getElem hlt,
    List.getD_eq_getElem _ _ hlt, Option.bind_some]
  rfl

/-- Where a thread is: outside of the call, or past its increment, with the number of the increment
and the fetched cursor. -/
inductive DrawPc
  | outside
  | fetched (number cursor : Nat)
  deriving DecidableEq, Repr

/-- `selected_pattern_cursor_`, the threads, how many increments there have been, and the returned
ids with the numbers of their calls. -/
structure Draws (τ : Type) where
  cursor : Nat
  increments : Nat
  pc : τ → DrawPc
  returned : List (Nat × Nat)

/-- After `SetPatternSequence`. -/
def Draws.initial (τ : Type) : Draws τ := ⟨0, 0, fun _ => .outside, []⟩

/-- `increments` counts the increments, it is no variable of the source. -/
inductive DrawStep {τ : Type} [DecidableEq τ] (l : PatternList) : Draws τ → Draws τ → Prop
  | fetchAdd {s : Draws τ} {t : τ} (hpc : s.pc t = .outside) :
      DrawStep l s
        { s with
          cursor := (s.cursor + 1) % 2 ^ 32
          increments := s.increments + 1
          pc := Function.update s.pc t (.fetched s.increments s.cursor) }
  | ret {s : Draws τ} {t : τ} {number cursor id : Nat} (hpc : s.pc t = .fetched number cursor)
      (hid : l.selectedId cursor = some id) :
      DrawStep l s
        { s with
          pc := Function.update s.pc t .outside
          returned := s.returned ++ [(number, id)] }

/-- The states of all runs, in any interleaving. -/
def Drawn {τ : Type} [DecidableEq τ] (l : PatternList) (s : Draws τ) : Prop :=
  Relation.ReflTransGen l.DrawStep (Draws.initial τ) s

/-- Each call that has returned has returned the entry its number says. -/
def Draws.InOrder {τ : Type} (l : PatternList) (s : Draws τ) : Prop :=
  ∀ call ∈ s.returned, cycled l.selectedPatternIds call.1 = some call.2

/-- The cursor is the number of the next increment, as an `unsigned int`. -/
structure DrawInv {τ : Type} (l : PatternList) (s : Draws τ) : Prop where
  cursor : s.cursor = s.increments % 2 ^ 32
  fetched : ∀ t number cursor, s.pc t = .fetched number cursor →
    number < s.increments ∧ cursor = number % 2 ^ 32
  returned : ∀ call ∈ s.returned,
    call.1 < s.increments ∧ l.selectedId (call.1 % 2 ^ 32) = some call.2

section Runs

variable {τ : Type} {l : PatternList} {s s' : Draws τ}

theorem drawInv_initial : DrawInv l (Draws.initial τ) where
  cursor := rfl
  fetched _ _ _ h := by cases h
  returned _ h := by cases h

variable [DecidableEq τ]

/-- **The step lemma.** -/
theorem DrawInv.step (h : DrawInv l s) (hs : l.DrawStep s s') : DrawInv l s' := by
  cases hs with
  | @fetchAdd t hpc =>
      constructor
      · change (s.cursor + 1) % 2 ^ 32 = (s.increments + 1) % 2 ^ 32
        rw [h.cursor, Nat.mod_add_mod]
      · intro t' number cursor ht'
        change Function.update s.pc t _ t' = _ at ht'
        by_cases heq : t' = t
        · subst heq
          rw [Function.update_self] at ht'
          cases ht'
          exact ⟨Nat.lt_succ_self _, h.cursor⟩
        · rw [Function.update_of_ne heq] at ht'
          have hold := h.fetched t' number cursor ht'
          exact ⟨Nat.lt_succ_of_lt hold.1, hold.2⟩
      · intro call hcall
        have hold := h.returned call hcall
        exact ⟨Nat.lt_succ_of_lt hold.1, hold.2⟩
  | @ret t number cursor id hpc hid =>
      have hnumber := h.fetched t number cursor hpc
      constructor
      · exact h.cursor
      · intro t' number' cursor' ht'
        change Function.update s.pc t _ t' = _ at ht'
        by_cases heq : t' = t
        · subst heq
          rw [Function.update_self] at ht'
          cases ht'
        · rw [Function.update_of_ne heq] at ht'
          exact h.fetched t' number' cursor' ht'
      · intro call hcall
        rcases List.mem_append.mp hcall with hcall | hcall
        · exact h.returned call hcall
        · rw [List.mem_singleton.mp hcall]
          exact ⟨hnumber.1, hnumber.2 ▸ hid⟩

theorem Drawn.inv (h : l.Drawn s) : DrawInv l s := by
  induction h with
  | refl => exact drawInv_initial
  | tail _ hs ih => exact ih.step hs

/-- A call that finds an entry can return. -/
theorem selectedId_isSome (hids : l.selectedPatternIds ≠ []) (cursor : Nat) :
    ∃ id, l.selectedId cursor = some id := by
  have hlt := Nat.mod_lt cursor (List.length_pos_iff.mpr hids)
  exact ⟨_, List.getElem?_eq_getElem hlt⟩

/-- One thread can make any number of calls. -/
theorem exists_drawn (hids : l.selectedPatternIds ≠ []) (t : τ) (n : Nat) :
    ∃ s : Draws τ, l.Drawn s ∧ s.increments = n ∧ s.pc t = .outside ∧
      ∀ k < n, ∃ id, (k, id) ∈ s.returned := by
  induction n with
  | zero => exact ⟨.initial τ, .refl, rfl, rfl, fun k hk => absurd hk (Nat.not_lt_zero k)⟩
  | succ n ih =>
      obtain ⟨s, hs, hn, hpc, hall⟩ := ih
      obtain ⟨id, hid⟩ := selectedId_isSome hids s.cursor
      have hfetched : Function.update s.pc t (.fetched s.increments s.cursor) t =
          .fetched s.increments s.cursor := Function.update_self _ _ _
      refine ⟨_, (hs.tail (.fetchAdd hpc)).tail (.ret hfetched hid), congrArg (· + 1) hn,
        Function.update_self _ _ _, fun k hk => ?_⟩
      by_cases hlt : k < n
      · obtain ⟨id', hmem⟩ := hall k hlt
        exact ⟨id', List.mem_append_left _ hmem⟩
      · have heq : k = s.increments := by omega
        exact ⟨id, List.mem_append_right _ (by rw [heq]; exact List.mem_singleton_self _)⟩

/-- Every number is the number of a call that returns in some run. -/
theorem exists_returned (hids : l.selectedPatternIds ≠ []) (t : τ) (k : Nat) :
    ∃ s : Draws τ, ∃ id, l.Drawn s ∧ (k, id) ∈ s.returned ∧ l.selectedId (k % 2 ^ 32) = some id := by
  obtain ⟨s, hs, -, -, hall⟩ := exists_drawn hids t (k + 1)
  obtain ⟨id, hmem⟩ := hall k (Nat.lt_succ_self k)
  exact ⟨s, id, hs, hmem, (hs.inv.returned _ hmem).2⟩

/-- **The `-P` sequence in order.** The calls return the entries in a circle as long as there have
been at most `2 ^ 32` increments, in any run of any threads. In longer runs they do so exactly when
turning the sequence by `2 ^ 32` gives the sequence again. -/
theorem round_robin [Nonempty τ] (l : PatternList) (hids : l.selectedPatternIds ≠ []) :
    (∀ s : Draws τ, l.Drawn s → s.increments ≤ 2 ^ 32 → s.InOrder l) ∧
    (l.selectedPatternIds.rotate (2 ^ 32) = l.selectedPatternIds →
      ∀ s : Draws τ, l.Drawn s → s.InOrder l) ∧
    (l.selectedPatternIds.length ≤ 2 ^ 32 → (∀ s : Draws τ, l.Drawn s → s.InOrder l) →
      l.selectedPatternIds.rotate (2 ^ 32) = l.selectedPatternIds) := by
  refine ⟨?_, ?_, ?_⟩
  · intro s hs hle call hcall
    have hret := hs.inv.returned call hcall
    rw [Nat.mod_eq_of_lt (by omega)] at hret
    exact hret.2
  · intro hturn s hs call hcall
    have hret := (hs.inv.returned call hcall).2
    rw [← Nat.mod_add_div call.1 (2 ^ 32), cycled_add_mul hids hturn]
    exact hret
  · intro hlen hall
    refine (cycled_mod_iff hids hlen).mp fun k => ?_
    obtain ⟨t⟩ := ‹Nonempty τ›
    obtain ⟨s, id, hs, hmem, hid⟩ := exists_returned hids t k
    rw [hall s hs _ hmem]
    exact hid

end Runs

/-- The built-in patterns with a sequence. -/
def builtIn (ids : List Nat) (hlt : ∀ id ∈ ids, id < (initPatterns 0).length) : PatternList where
  patterns := initPatterns 0
  selectedPatternIds := ids
  ids_lt := hlt
  weight_pos := (initializeList 0).weight_pos

/-- `-P 0,1` and `-P 0,1,2` -/
def twoIds : PatternList := builtIn [0, 1] (by decide +kernel)
def threeIds : PatternList := builtIn [0, 1, 2] (by decide +kernel)

theorem round_robin_two :
    twoIds.selectedPatternIds = [0, 1] ∧ ∀ s : Draws Unit, twoIds.Drawn s → s.InOrder twoIds :=
  ⟨rfl, (round_robin twoIds (by decide)).2.1 (by decide)⟩

/-- With three ids the call after the wrap returns the first id again, and not the second. -/
theorem round_robin_wraps :
    ∃ s : Draws Unit, threeIds.Drawn s ∧ (2 ^ 32, 0) ∈ s.returned ∧
      threeIds.selectedPatternIds[2 ^ 32 % threeIds.selectedPatternIds.length]? = some 1 ∧
      ¬ s.InOrder threeIds := by
  obtain ⟨s, id, hs, hmem, hid⟩ := exists_returned (l := threeIds) (by decide) () (2 ^ 32)
  have hzero : id = 0 := by
    rw [Nat.mod_self] at hid
    exact (Option.some.inj hid).symm
  subst hzero
  refine ⟨s, hs, hmem, by decide, fun hall => ?_⟩
  exact absurd (hall _ hmem) (by decide)

end StressAppTest.PatternList
