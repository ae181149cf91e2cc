import Mathlib.Data.List.Basic
import StressAppTest.PageEntry

/-!
# The ring buffer of page entries (`queue.cc`)

`PageEntryQueue` keeps its entries in a circular array with one location that is always
empty, so that `nextin == nextout` means empty. `toList` are the entries in order, and
the two operations are told in terms of it:

* `push_spec`: `Push` appends, unless the queue is full.
* `popRandom_spec`: `PopRandom` takes out one of the entries and moves the first one to its
  place. The last entry is only ever taken when it is alone.
-/

namespace StressAppTest.OneLock

/-- `class PageEntryQueue`. The counters `pushed_` and `popped_` are never read. -/
structure PageEntryQueue where
  pages : Nat → PageEntry
  nextin : Nat
  nextout : Nat
  qSize : Nat
  nextin_lt : nextin < qSize
  nextout_lt : nextout < qSize

namespace PageEntryQueue

/-- The constructor, over the memory that `new` returns. -/
def construct (pages : Nat → PageEntry) (queuesize : Nat) : PageEntryQueue :=
  ⟨pages, 0, 0, queuesize + 1, queuesize.succ_pos, queuesize.succ_pos⟩

variable (q : PageEntryQueue)

theorem qSize_pos : 0 < q.qSize := by
  have := q.nextin_lt
  omega

/-- `PageEntryQueue::Push` -/
def push (pe : PageEntry) : PageEntryQueue × Bool :=
  let nextnextin := (q.nextin + 1) % q.qSize
  if nextnextin ≠ q.nextout then
    ({ q with
        pages := Function.update q.pages q.nextin pe
        nextin := nextnextin
        nextin_lt := Nat.mod_lt _ q.qSize_pos }, true)
  else (q, false)

/-- The location `PopRandom` swaps with the next one out. -/
def newindex (rand : Nat) : Nat :=
  let lastin := (q.nextin + q.qSize - 1) % q.qSize
  let entries := (lastin + q.qSize - q.nextout) % q.qSize
  if entries = 0 then q.nextout else (rand % entries + q.nextout) % q.qSize

/-- `PageEntryQueue::PopRandom` -/
def popRandom (rand : Nat) : PageEntryQueue × Option PageEntry :=
  if q.nextin ≠ q.nextout then
    let tmp := q.pages q.nextout
    let pages := Function.update q.pages q.nextout (q.pages (q.newindex rand))
    let pages := Function.update pages (q.newindex rand) tmp
    ({ q with
        pages := pages
        nextout := (q.nextout + 1) % q.qSize
        nextout_lt := Nat.mod_lt _ q.qSize_pos }, some (pages q.nextout))
  else (q, none)

/-! ## The entries in order -/

/-- How many entries there are. -/
def count : Nat := (q.nextin + q.qSize - q.nextout) % q.qSize

/-- The location of entry `k`. -/
def loc (k : Nat) : Nat := (q.nextout + k) % q.qSize

def toList : List PageEntry := (List.range q.count).map fun k => q.pages (q.loc k)

variable {q}

/-- One turn round the array. -/
theorem mod_eq_ite {x n : Nat} (h : x < 2 * n) : x % n = if x < n then x else x - n := by
  split
  · next hlt => exact Nat.mod_eq_of_lt hlt
  · rw [Nat.mod_eq_sub_mod (by omega), Nat.mod_eq_of_lt (by omega)]

theorem count_eq (q : PageEntryQueue) :
    q.count = if q.nextout ≤ q.nextin then q.nextin - q.nextout
      else q.nextin + q.qSize - q.nextout := by
  have hin := q.nextin_lt
  have hout := q.nextout_lt
  rw [count, mod_eq_ite (by omega)]
  split <;> split <;> omega

theorem count_lt (q : PageEntryQueue) : q.count < q.qSize := Nat.mod_lt _ q.qSize_pos

theorem loc_eq (q : PageEntryQueue) {k : Nat} (hk : k < q.qSize) :
    q.loc k = if q.nextout + k < q.qSize then q.nextout + k else q.nextout + k - q.qSize := by
  have hout := q.nextout_lt
  exact mod_eq_ite (by omega)

theorem loc_zero (q : PageEntryQueue) : q.loc 0 = q.nextout := Nat.mod_eq_of_lt q.nextout_lt

theorem loc_count (q : PageEntryQueue) : q.loc q.count = q.nextin := by
  have hin := q.nextin_lt
  have hout := q.nextout_lt
  have hcount := q.count_eq
  rw [loc_eq q q.count_lt]
  split at hcount <;> split <;> omega

theorem loc_inj {k k' : Nat} (hk : k < q.qSize) (hk' : k' < q.qSize) (h : q.loc k = q.loc k') :
    k = k' := by
  have hout := q.nextout_lt
  rw [loc_eq q hk, loc_eq q hk'] at h
  split at h <;> split at h <;> omega

@[simp] theorem length_toList (q : PageEntryQueue) : q.toList.length = q.count := by
  simp [toList]

theorem toList_getElem? (q : PageEntryQueue) {k : Nat} (hk : k < q.count) :
    q.toList[k]? = some (q.pages (q.loc k)) := by
  simp [toList, hk]

theorem toList_construct (pages : Nat → PageEntry) (queuesize : Nat) :
    (construct pages queuesize).toList = [] := by
  simp [toList, construct, count]

/-- The entries of a queue are known by their number and their places. -/
theorem toList_eq {l : List PageEntry} (hlen : l.length = q.count)
    (h : ∀ k, k < q.count → l[k]? = some (q.pages (q.loc k))) : q.toList = l := by
  apply List.ext_getElem?
  intro k
  by_cases hk : k < q.count
  · rw [toList_getElem? q hk, h k hk]
  · rw [List.getElem?_eq_none (by simpa using hk), List.getElem?_eq_none (by omega)]

/-! ## `Push` -/

/-- A queue that is not full takes the entry at its end. -/
theorem push_spec (pe : PageEntry) (h : q.count + 1 < q.qSize) :
    (q.push pe).2 = true ∧ (q.push pe).1.qSize = q.qSize ∧
      (q.push pe).1.toList = q.toList ++ [pe] := by
  have hin := q.nextin_lt
  have hout := q.nextout_lt
  have hcount := q.count_eq
  have hnext : (q.nextin + 1) % q.qSize =
      if q.nextin + 1 < q.qSize then q.nextin + 1 else q.nextin + 1 - q.qSize :=
    mod_eq_ite (by omega)
  have hne : (q.nextin + 1) % q.qSize ≠ q.nextout := by
    rw [hnext]
    split at hcount <;> split <;> omega
  have hpush : q.push pe = ({ q with
      pages := Function.update q.pages q.nextin pe
      nextin := (q.nextin + 1) % q.qSize
      nextin_lt := Nat.mod_lt _ q.qSize_pos }, true) := if_pos hne
  rw [hpush]
  refine ⟨rfl, rfl, ?_⟩
  have hcount' : ({ q with
      pages := Function.update q.pages q.nextin pe
      nextin := (q.nextin + 1) % q.qSize
      nextin_lt := Nat.mod_lt _ q.qSize_pos } : PageEntryQueue).count = q.count + 1 := by
    simp only [count_eq, hnext]
    split at hcount <;> split <;> split <;> omega
  apply toList_eq
  · simp [hcount']
  · intro k hk
    rw [hcount'] at hk
    by_cases hlast : k = q.count
    · subst hlast
      have hloc := q.loc_count
      rw [loc] at hloc
      simp [loc, hloc]
    · have hk' : k < q.count := by omega
      have hloc : q.loc k ≠ q.nextin := by
        intro hc
        have := q.loc_count
        have hlt := q.count_lt
        exact hlast (loc_inj (by omega) hlt (by rw [hc, this]))
      rw [List.getElem?_append_left (by simpa using hk'), toList_getElem? q hk']
      simp only [loc] at hloc ⊢
      rw [Function.update_of_ne hloc]

/-! ## `PopRandom` -/

/-- The place of the entry that `PopRandom` takes out of `n`. -/
def place (rand n : Nat) : Nat := if n ≤ 1 then 0 else rand % (n - 1)

theorem place_lt (rand : Nat) {n : Nat} (h : 0 < n) : place rand n < n := by
  unfold place
  split
  · exact h
  · have := Nat.mod_lt rand (show 0 < n - 1 by omega)
    omega

theorem newindex_eq (q : PageEntryQueue) (rand : Nat) (h : 0 < q.count) :
    q.newindex rand = q.loc (place rand q.count) := by
  have hin := q.nextin_lt
  have hout := q.nextout_lt
  have hcount := q.count_eq
  have hlt := q.count_lt
  have hlast : (q.nextin + q.qSize - 1) % q.qSize =
      if q.nextin + q.qSize - 1 < q.qSize then q.nextin + q.qSize - 1
        else q.nextin + q.qSize - 1 - q.qSize := mod_eq_ite (by omega)
  have hentries : ((q.nextin + q.qSize - 1) % q.qSize + q.qSize - q.nextout) % q.qSize =
      q.count - 1 := by
    rw [hlast, mod_eq_ite (by split <;> omega)]
    split at hcount <;> split <;> split <;> omega
  unfold newindex place
  dsimp only
  rw [hentries]
  by_cases hone : q.count ≤ 1
  · rw [if_pos (by omega), if_pos hone, loc_zero]
  · rw [if_neg (by omega), if_neg hone, loc, Nat.add_comm]

theorem popRandom_nil (rand : Nat) (h : q.count = 0) : q.popRandom rand = (q, none) := by
  have hcount := q.count_eq
  have hin := q.nextin_lt
  have hout := q.nextout_lt
  refine if_neg (not_not_intro ?_)
  split at hcount <;> omega

/-- The entry at `place` is taken out, and the first one moves there. -/
theorem popRandom_spec (rand : Nat) (h : 0 < q.count) :
    (q.popRandom rand).2 = q.toList[place rand q.count]? ∧
      (q.popRandom rand).1.qSize = q.qSize ∧
      (q.popRandom rand).1.toList =
        (q.toList.set (place rand q.count) (q.pages q.nextout)).tail := by
  have hin := q.nextin_lt
  have hout := q.nextout_lt
  have hcount := q.count_eq
  have hlt := q.count_lt
  have hplace := place_lt rand h
  have hne : q.nextin ≠ q.nextout := by
    intro hc
    rw [if_pos hc.ge, hc] at hcount
    omega
  let swapped := Function.update (Function.update q.pages q.nextout (q.pages (q.newindex rand)))
    (q.newindex rand) (q.pages q.nextout)
  have hpop : q.popRandom rand = ({ q with
      pages := swapped
      nextout := (q.nextout + 1) % q.qSize
      nextout_lt := Nat.mod_lt _ q.qSize_pos }, some (swapped q.nextout)) := if_pos hne
  -- the swap, place by place
  have hswap : ∀ k, k < q.count → swapped (q.loc k) =
      if k = place rand q.count then q.pages q.nextout
      else if k = 0 then q.pages (q.newindex rand) else q.pages (q.loc k) := by
    intro k hk
    have hnew := newindex_eq q rand h
    have hzero := q.loc_zero
    split
    · next heq =>
      subst heq
      simp [swapped, hnew]
    · next hk1 =>
      have h1 : q.loc k ≠ q.newindex rand := fun hc =>
        hk1 (loc_inj (by omega) (by omega) (hc.trans hnew))
      split
      · next hk0 =>
        subst hk0
        rw [hzero] at h1 ⊢
        simp [swapped, h1]
      · next hk0 =>
        have h0 : q.loc k ≠ q.nextout := fun hc =>
          hk0 (loc_inj (by omega) (by omega) (hc.trans hzero.symm))
        simp [swapped, h1, h0]
  rw [hpop]
  refine ⟨?_, rfl, ?_⟩
  · have hfirst := hswap 0 h
    rw [loc_zero] at hfirst
    rw [toList_getElem? q hplace, hfirst, ← newindex_eq q rand h]
    split
    · next heq => rw [newindex_eq q rand h, ← heq, loc_zero]
    · rfl
  · have hnext : (q.nextout + 1) % q.qSize =
        if q.nextout + 1 < q.qSize then q.nextout + 1 else q.nextout + 1 - q.qSize :=
      mod_eq_ite (by omega)
    have hcount' : ({ q with
        pages := swapped
        nextout := (q.nextout + 1) % q.qSize
        nextout_lt := Nat.mod_lt _ q.qSize_pos } : PageEntryQueue).count = q.count - 1 := by
      simp only [count_eq, hnext]
      split at hcount <;> split <;> split <;> omega
    apply toList_eq
    · simp [hcount']
    · intro k hk
      rw [hcount'] at hk
      have hloc : ((q.nextout + 1) % q.qSize + k) % q.qSize = q.loc (k + 1) := by
        rw [Nat.mod_add_mod, loc]
        congr 1
        omega
      simp only [loc] at hloc ⊢
      rw [hloc, List.getElem?_tail, List.getElem?_set]
      have := hswap (k + 1) (by omega)
      simp only [loc] at this
      rw [this]
      by_cases heq : place rand q.count = k + 1
      · rw [if_pos heq, if_pos heq.symm, if_pos (by simpa using hplace)]
      · rw [if_neg heq, if_neg (Ne.symm heq), if_neg (by omega), toList_getElem? q (by omega), loc]

/-- Moving the first entry to the place of the one taken keeps the entries. -/
theorem perm_cons_tail_set {α : Type*} {first x : α} {l : List α} {k : Nat}
    (hfirst : l[0]? = some first) (hx : l[k]? = some x) : (x :: (l.set k first).tail).Perm l := by
  cases l with
  | nil => simp at hfirst
  | cons y rest =>
      obtain rfl : y = first := by simpa using hfirst
      cases k with
      | zero =>
          obtain rfl : y = x := by simpa using hx
          exact .refl _
      | succ k =>
          rw [List.getElem?_cons_succ] at hx
          obtain ⟨hk, rfl⟩ := List.getElem?_eq_some_iff.mp hx
          rw [List.set_cons_succ, List.tail_cons]
          have hset : (rest.set k y).Perm (y :: rest.eraseIdx k) := List.set_perm_cons_eraseIdx hk y
          have hget : (rest[k] :: rest.eraseIdx k).Perm rest := List.getElem_cons_eraseIdx_perm hk
          calc (rest[k] :: rest.set k y).Perm (rest[k] :: y :: rest.eraseIdx k) := hset.cons _
            _ |>.Perm (y :: rest[k] :: rest.eraseIdx k) := .swap _ _ _
            _ |>.Perm (y :: rest) := hget.cons _

end PageEntryQueue

end StressAppTest.OneLock
