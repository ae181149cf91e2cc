import Mathlib.Data.Multiset.AddSub
import StressAppTest.OneLock.Refinement

/-!
# `PageEntryQueue` as a bounded bag (`queue.cc`)

The queue with its two counters, over any sequence of calls. The entries that were pushed and those
that came out are written down along the way, so that nothing can get lost or come out twice
(`bounded_bag`).

`PopRandom` computes `entries` from the last location in use and not from the next one, one too few.
The newest entry is therefore never taken while there is another one (`takes_lt`), and only a queue
with a single entry treats all its entries alike (`popRandom_fair_iff`).
-/

namespace StressAppTest.OneLock

/-- A call with an entry, or with the value of `random()`. -/
inductive Call
  | push (pe : PageEntry)
  | popRandom (rand : Nat)

/-- A queue with `pushed_` and `popped_`; `accepted` are the entries that `Push` took, and `returned`
those that `PopRandom` gave out. -/
structure Bag where
  queue : PageEntryQueue
  pushed : Nat
  popped : Nat
  accepted : List PageEntry
  returned : List PageEntry

namespace Bag

/-- The constructor, over the memory that `new` returns. -/
def construct (pages : Nat → PageEntry) (queuesize : Nat) : Bag :=
  ⟨.construct pages queuesize, 0, 0, [], []⟩

def step (b : Bag) : Call → Bag
  | .push pe =>
      if (b.queue.push pe).2 then
        { b with
          queue := (b.queue.push pe).1
          pushed := b.pushed + 1
          accepted := b.accepted ++ [pe] }
      else { b with queue := (b.queue.push pe).1 }
  | .popRandom rand =>
      match (b.queue.popRandom rand).2 with
      | some pe =>
          { b with
            queue := (b.queue.popRandom rand).1
            popped := b.popped + 1
            returned := b.returned ++ [pe] }
      | none => { b with queue := (b.queue.popRandom rand).1 }

/-- The queue after a sequence of calls. -/
def run (pages : Nat → PageEntry) (queuesize : Nat) (calls : List Call) : Bag :=
  calls.foldl step (construct pages queuesize)

/-- Everything that went in is stored or has come out. -/
structure Balanced (queuesize : Nat) (b : Bag) : Prop where
  qSize : b.queue.qSize = queuesize + 1
  pushed : b.pushed = b.accepted.length
  popped : b.popped = b.returned.length
  perm : (b.returned ++ b.queue.toList).Perm b.accepted

end Bag

namespace PageEntryQueue

variable {q : PageEntryQueue}

/-- A full queue stays as it is. -/
theorem push_full (pe : PageEntry) (h : q.count + 1 = q.qSize) : q.push pe = (q, false) := by
  have hin := q.nextin_lt
  have hout := q.nextout_lt
  have hcount := q.count_eq
  have hnext : (q.nextin + 1) % q.qSize =
      if q.nextin + 1 < q.qSize then q.nextin + 1 else q.nextin + 1 - q.qSize :=
    mod_eq_ite (by omega)
  refine if_neg (not_not_intro ?_)
  rw [hnext]
  split at hcount <;> split <;> omega

theorem push_eq_false_iff (pe : PageEntry) : (q.push pe).2 = false ↔ q.count + 1 = q.qSize := by
  constructor
  · intro hfalse
    by_contra hfull
    have hlt := q.count_lt
    obtain ⟨htrue, -, -⟩ := push_spec pe (q := q) (by omega)
    rw [hfalse] at htrue
    cases htrue
  · intro hfull
    rw [push_full pe hfull]

theorem popRandom_eq_none_iff (rand : Nat) : (q.popRandom rand).2 = none ↔ q.toList = [] := by
  rcases popRandom_cases q rand with ⟨hpop, hnil⟩ | ⟨pe, hpe, -, hperm⟩
  · rw [hpop]
    exact iff_of_true rfl hnil
  · rw [hpe]
    refine iff_of_false nofun fun hnil => ?_
    rw [hnil] at hperm
    exact absurd hperm.length_eq (by simp)

/-- The number of entries is the difference of the indices around the array. -/
theorem count_eq_emod (q : PageEntryQueue) :
    (q.count : Int) = ((q.nextin : Int) - q.nextout) % q.qSize := by
  have hin := q.nextin_lt
  have hout := q.nextout_lt
  have hcount := q.count_eq
  split at hcount
  · rw [Int.emod_eq_of_lt (by omega) (by omega)]
    omega
  · rw [← Int.add_emod_right, Int.emod_eq_of_lt (by omega) (by omega)]
    omega

end PageEntryQueue

namespace Bag

variable {queuesize : Nat} {b : Bag}

theorem balanced_construct (pages : Nat → PageEntry) (queuesize : Nat) :
    Balanced queuesize (construct pages queuesize) where
  qSize := rfl
  pushed := rfl
  popped := rfl
  perm := by
    change (PageEntryQueue.construct pages queuesize).toList.Perm []
    rw [PageEntryQueue.toList_construct]

theorem Balanced.push (h : Balanced queuesize b) (pe : PageEntry) :
    Balanced queuesize (b.step (.push pe)) := by
  by_cases hroom : b.queue.count + 1 = b.queue.qSize
  · rw [step, PageEntryQueue.push_full pe hroom]
    exact h
  · have hlt := b.queue.count_lt
    obtain ⟨htrue, hsize, hlist⟩ := PageEntryQueue.push_spec pe (q := b.queue) (by omega)
    rw [step, if_pos htrue]
    refine ⟨hsize.trans h.qSize, ?_, h.popped, ?_⟩
    · simp [h.pushed]
    · simp only [hlist, ← List.append_assoc]
      exact h.perm.append_right [pe]

theorem Balanced.popRandom (h : Balanced queuesize b) (rand : Nat) :
    Balanced queuesize (b.step (.popRandom rand)) := by
  rcases popRandom_cases b.queue rand with ⟨hpop, -⟩ | ⟨pe, hpe, hsize, hperm⟩
  · rw [step, hpop]
    exact h
  · simp only [step, hpe]
    refine ⟨hsize.trans h.qSize, h.pushed, ?_, ?_⟩
    · simp [h.popped]
    · simp only [List.append_assoc, List.singleton_append]
      exact (hperm.append_left b.returned).trans h.perm

theorem Balanced.step (h : Balanced queuesize b) (c : Call) : Balanced queuesize (b.step c) := by
  cases c with
  | push pe => exact h.push pe
  | popRandom rand => exact h.popRandom rand

/-- The balance holds after any sequence of calls. -/
theorem Balanced.foldl (h : Balanced queuesize b) (calls : List Call) :
    Balanced queuesize (calls.foldl Bag.step b) := by
  induction calls generalizing b with
  | nil => exact h
  | cons c calls ih => exact ih (h.step c)

theorem balanced_run (pages : Nat → PageEntry) (queuesize : Nat) (calls : List Call) :
    Balanced queuesize (run pages queuesize calls) :=
  (balanced_construct pages queuesize).foldl calls

/-- Whatever the calls were: the indices stay in the array, the number of entries is the difference
of the indices and of the counters, `Push` fails on a full queue only and `PopRandom` on an empty one
only, neither changes anything then, and what was pushed is what came out and what is stored. -/
theorem bounded_bag (pages : Nat → PageEntry) (queuesize : Nat) (calls : List Call) :
    let b := run pages queuesize calls
    let stored := b.queue.toList
    (b.queue.nextin ≤ queuesize ∧ b.queue.nextout ≤ queuesize) ∧
    ((stored.length : Int) = ((b.queue.nextin : Int) - b.queue.nextout) % (queuesize + 1) ∧
      (stored.length : Int) = (b.pushed : Int) - b.popped) ∧
    (∀ pe, ((b.queue.push pe).2 = false ↔ stored.length = queuesize) ∧
      ((b.queue.push pe).2 = false → b.step (.push pe) = b)) ∧
    (∀ rand, ((b.queue.popRandom rand).2 = none ↔ stored = []) ∧
      ((b.queue.popRandom rand).2 = none → b.step (.popRandom rand) = b)) ∧
    (b.returned : Multiset PageEntry) + stored = b.accepted := by
  intro b stored
  have h : Balanced queuesize b := balanced_run pages queuesize calls
  have hsize := h.qSize
  have hlen : stored.length = b.queue.count := PageEntryQueue.length_toList b.queue
  refine ⟨⟨?_, ?_⟩, ⟨?_, ?_⟩, ?_, ?_, ?_⟩
  · have hin := b.queue.nextin_lt
    omega
  · have hout := b.queue.nextout_lt
    omega
  · rw [hlen, PageEntryQueue.count_eq_emod, hsize]
    push_cast
    rfl
  · have hperm := h.perm.length_eq
    rw [List.length_append, ← h.pushed, ← h.popped] at hperm
    change b.popped + stored.length = b.pushed at hperm
    omega
  · intro pe
    have hiff := PageEntryQueue.push_eq_false_iff (q := b.queue) pe
    refine ⟨?_, ?_⟩
    · rw [hiff, hlen]
      omega
    · intro hfalse
      rw [step, PageEntryQueue.push_full pe (hiff.mp hfalse)]
      rfl
  · intro rand
    refine ⟨PageEntryQueue.popRandom_eq_none_iff rand, fun hnone => ?_⟩
    rcases popRandom_cases b.queue rand with ⟨hpop, -⟩ | ⟨pe, hpe, -, -⟩
    · rw [step, hpop]
    · rw [hpe] at hnone
      cases hnone
  · rw [Multiset.coe_add, Multiset.coe_eq_coe]
    exact h.perm

end Bag

/-! ## The choice of `PopRandom` -/

namespace PageEntryQueue

variable {q : PageEntryQueue}

/-- `PopRandom` takes entry `k`: the location it swaps with the next one out is that of the entry. -/
def Takes (q : PageEntryQueue) (rand k : Nat) : Prop := q.newindex rand = q.loc k

/-- Every entry can be taken, and each by one residue of `random()` modulo the number of entries. -/
def Fair (q : PageEntryQueue) : Prop :=
  (∀ k < q.count, ∃ rand < 2 ^ 31, q.Takes rand k) ∧
  ∀ k < q.count, ∃! r, r < q.count ∧ ∀ rand < 2 ^ 31, rand % q.count = r → q.Takes rand k

theorem takes_iff {rand k : Nat} (hk : k < q.count) : q.Takes rand k ↔ place rand q.count = k := by
  have hpos : 0 < q.count := by omega
  have hlt := q.count_lt
  have hplace := place_lt rand hpos
  rw [Takes, newindex_eq q rand hpos]
  exact ⟨fun h => loc_inj (by omega) (by omega) h, fun h => by rw [h]⟩

/-- The entry that is taken is the one returned. -/
theorem popRandom_of_takes {rand k : Nat} (hk : k < q.count) (h : q.Takes rand k) :
    (q.popRandom rand).2 = q.toList[k]? := by
  rw [(popRandom_spec rand (by omega)).1, (takes_iff hk).mp h]

/-- Next to another entry the newest one is not taken. -/
theorem takes_lt {rand k : Nat} (hcount : 2 ≤ q.count) (hk : k < q.count) (h : q.Takes rand k) :
    k < q.count - 1 := by
  rw [takes_iff hk, place, if_neg (by omega)] at h
  rw [← h]
  exact Nat.mod_lt _ (by omega)

/-- A queue of one entry can only give this one. -/
theorem fair_of_count_eq_one (h : q.count = 1) : q.Fair := by
  have htakes {rand k : Nat} (hk : k < q.count) : q.Takes rand k := by
    rw [takes_iff hk, place, if_pos (by omega)]
    omega
  refine ⟨fun k hk => ⟨0, Nat.two_pow_pos 31, htakes hk⟩, fun k hk => ⟨0, ?_, ?_⟩⟩
  · exact ⟨by omega, fun rand _ _ => htakes hk⟩
  · rintro r ⟨hr, -⟩
    omega

end PageEntryQueue

/-- In every state with an entry: all entries have the same chance if and only if there is one. -/
theorem popRandom_fair_iff (pages : Nat → PageEntry) (queuesize : Nat) (calls : List Call)
    (hstored : (Bag.run pages queuesize calls).queue.toList ≠ []) :
    (Bag.run pages queuesize calls).queue.Fair ↔
      (Bag.run pages queuesize calls).queue.toList.length = 1 := by
  generalize (Bag.run pages queuesize calls).queue = q at hstored ⊢
  rw [PageEntryQueue.length_toList]
  have hpos : 0 < q.count := by
    rw [← PageEntryQueue.length_toList]
    exact List.length_pos_of_ne_nil hstored
  constructor
  · rintro ⟨hreach, -⟩
    by_contra hone
    obtain ⟨rand, -, htakes⟩ := hreach (q.count - 1) (by omega)
    have hlt := PageEntryQueue.takes_lt (by omega) (by omega) htakes
    omega
  · exact PageEntryQueue.fair_of_count_eq_one

/-- The only entry of a queue. -/
theorem popRandom_fair_alone : ∃ pe : PageEntry,
    (Bag.run (fun _ => pe) 1 [.push pe]).queue.Fair := by
  let pe : PageEntry := ⟨0, none, 0, none, 0, 0, 0, 0, -1, none⟩
  have hlist : (Bag.run (fun _ => pe) 1 [.push pe]).queue.toList = [pe] := by
    simp [Bag.run, Bag.step, Bag.construct, PageEntryQueue.push, PageEntryQueue.construct,
      PageEntryQueue.toList, PageEntryQueue.count, PageEntryQueue.loc]
  refine ⟨pe, (popRandom_fair_iff _ 1 [.push pe] ?_).mpr ?_⟩
  · rw [hlist]
    exact List.cons_ne_nil pe []
  · rw [hlist]
    rfl

/-- Two entries: the one pushed last never comes out. -/
theorem popRandom_unfair : ∃ older newer : PageEntry, older ≠ newer ∧
    (Bag.run (fun _ => older) 2 [.push older, .push newer]).queue.toList = [older, newer] ∧
    (∀ rand, ((Bag.run (fun _ => older) 2 [.push older, .push newer]).queue.popRandom rand).2 =
      some older) ∧
    ¬ (Bag.run (fun _ => older) 2 [.push older, .push newer]).queue.Fair := by
  let entry (offset : Nat) : PageEntry := ⟨offset, none, 0, none, 0, 0, 0, 0, -1, none⟩
  have hlist : (Bag.run (fun _ => entry 0) 2 [.push (entry 0), .push (entry 1)]).queue.toList =
      [entry 0, entry 1] := by
    simp [Bag.run, Bag.step, Bag.construct, PageEntryQueue.push, PageEntryQueue.construct,
      PageEntryQueue.toList, PageEntryQueue.count, PageEntryQueue.loc, List.range_succ]
  generalize hqueue : Bag.run (fun _ => entry 0) 2 [.push (entry 0), .push (entry 1)] = b at hlist
  have hcount : b.queue.count = 2 := by
    rw [← PageEntryQueue.length_toList, hlist]
    rfl
  refine ⟨entry 0, entry 1, fun h => ?_, ?_⟩
  · exact absurd (congrArg PageEntry.offset h) Nat.zero_ne_one
  rw [hqueue]
  refine ⟨hlist, fun rand => ?_, ?_⟩
  · have hfirst := (PageEntryQueue.popRandom_spec rand (hcount ▸ Nat.two_pos)).1
    rw [hcount, hlist, PageEntryQueue.place, if_neg (by omega), Nat.mod_one] at hfirst
    exact hfirst
  · rintro ⟨hreach, -⟩
    obtain ⟨rand, -, htakes⟩ := hreach 1 (by omega)
    have hlt := PageEntryQueue.takes_lt (by omega) (by omega) htakes
    omega

end StressAppTest.OneLock
