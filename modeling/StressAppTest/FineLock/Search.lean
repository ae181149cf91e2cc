import StressAppTest.PageEntry
import StressAppTest.FineLock.Generator

/-!
# One search of the queue (`GetRandomWithPredicateTag`)

`Path.tryAt i` is `next_try` at the top of pass `i` of the search loop and `Path.index` the
page that pass looks at. Everything about the order of a search follows from `Path.Covers`:
the passes look at each page exactly once. `Path.covers` derives it from the constructor,
for every queue size, as long as the products of the search fit 64 bits (`Path.NoOverflow`).

`getRandomWithPredicateTag` is the search run without interruption. The search as a sequence
of steps that other threads can interrupt is in `FineLock.Interleaving`.
-/

namespace StressAppTest.FineLock

/-! ## The order of the search -/

namespace Path

/-- `(a_ * next_try + c_) % (modlength_)`, in unsigned 64-bit arithmetic. -/
def step (P : Path) (nextTry : Nat) : Nat := (P.a * nextTry + P.c) % 2 ^ 64 % P.modlength

/-- The step to the next value with the `while` loop that discards values out of bounds. A run
of discards that does not end within `modlength_` passes has met a value twice. -/
def advance (P : Path) (nextTry : Nat) : Option Nat :=
  Lcg.seek P.step (· < P.qSize) P.modlength (P.step nextTry)

/-- `next_try` at the top of pass `i`. -/
def tryAt (P : Path) : Nat → Option Nat
  | 0 => some 1
  | i + 1 => (P.tryAt i).bind P.advance

/-- `(next_try + first_try) % q_size_` -/
def index (P : Path) (firstTry nextTry : Nat) : Nat := (nextTry + firstTry) % 2 ^ 64 % P.qSize

/-- The products of the search fit an unsigned 64-bit integer. -/
def NoOverflow (P : Path) : Prop := P.a * (P.modlength - 1) + P.c < 2 ^ 64

instance (P : Path) : Decidable P.NoOverflow := inferInstanceAs (Decidable (_ < _))

/-- The passes of a search are defined and look at each page exactly once, whatever
`first_try` is. -/
structure Covers (P : Path) : Prop where
  defined : ∀ i ≤ P.qSize, ∃ x, P.tryAt i = some x
  surj : ∀ firstTry < P.qSize, ∀ j < P.qSize,
    ∃ i < P.qSize, ∃ x, P.tryAt i = some x ∧ P.index firstTry x = j
  inj : ∀ firstTry < P.qSize, ∀ i i' x x', i < P.qSize → i' < P.qSize → P.tryAt i = some x →
    P.tryAt i' = some x' → P.index firstTry x = P.index firstTry x' → i = i'

theorem index_lt {P : Path} (hq : 0 < P.qSize) (firstTry nextTry : Nat) :
    P.index firstTry nextTry < P.qSize := Nat.mod_lt _ hq

/-- Without overflow the search takes the steps of the generator. -/
theorem step_eq_next {P : Path} (hno : P.NoOverflow) {x : Nat} (hx : x < P.modlength) :
    P.step x = Lcg.next P.a P.c P.modlength x := by
  have hle : P.a * x ≤ P.a * (P.modlength - 1) := Nat.mul_le_mul_left _ (by omega)
  unfold NoOverflow at hno
  have hlt : P.a * x + P.c < 2 ^ 64 := by omega
  rw [step, Lcg.next, Nat.mod_eq_of_lt hlt]

theorem advance_eq_seek {P : Path} (hno : P.NoOverflow) {x : Nat} (hx : x < P.modlength) :
    P.advance x = Lcg.seek (Lcg.next P.a P.c P.modlength) (· < P.qSize) P.modlength
      (Lcg.next P.a P.c P.modlength x) := by
  have hpos : 0 < P.modlength := by omega
  rw [advance, step_eq_next hno hx]
  exact Lcg.seek_congr _ _ (S := (· < P.modlength)) (fun y _ => Lcg.next_lt hpos)
    (fun y hy => step_eq_next hno hy) (Lcg.next_lt hpos)

/-- Past a single page, the passes are the visits of the generator inside the window. -/
theorem tryAt_eq_visit {P : Path} (hF : Lcg.FullPeriod P.a P.c P.modlength)
    (hq : P.qSize ≤ P.modlength) (hno : P.NoOverflow) (h1 : 1 < P.qSize) {i : Nat}
    (hi : i < P.qSize) : P.tryAt i = some (Lcg.visit P.a P.c P.modlength P.qSize 1 i) := by
  induction i with
  | zero => rw [tryAt, Lcg.visit_zero h1]
  | succ i ih =>
      have hlt := Lcg.visit_lt hF (h1.trans_le hq) hq (by omega : i < P.qSize)
      rw [tryAt, ih (by omega), Option.bind_some, advance_eq_seek hno (hlt.trans_le hq)]
      exact Lcg.seek_visit hF (h1.trans_le hq) hq hi

/-- The bound on the products bounds the window. -/
theorem modlength_le {P : Path} (hno : P.NoOverflow) (h2 : 2 ≤ P.a ∨ P.modlength ≤ 2) :
    P.modlength ≤ 2 ^ 63 := by
  unfold NoOverflow at hno
  rcases h2 with h2 | h2
  · have : 2 * (P.modlength - 1) ≤ P.a * (P.modlength - 1) := Nat.mul_le_mul_right _ h2
    omega
  · omega

theorem index_eq_mod {P : Path} (hsize : P.qSize ≤ 2 ^ 63) {firstTry x : Nat}
    (hf : firstTry < P.qSize) (hx : x < P.qSize) :
    P.index firstTry x = (x + firstTry) % P.qSize := by
  rw [index, Nat.mod_eq_of_lt (by omega : x + firstTry < 2 ^ 64)]

theorem add_mod_cancel {q x y f : Nat} (hx : x < q) (hy : y < q)
    (h : (x + f) % q = (y + f) % q) : x = y := by
  have hxy : x % q = y % q := Nat.ModEq.add_right_cancel' f h
  rwa [Nat.mod_eq_of_lt hx, Nat.mod_eq_of_lt hy] at hxy

/-- **Coverage.** With the generator of the constructor, the `q_size_` passes of a search look
at each page exactly once. -/
theorem covers {q : Nat} {P : Path} (hq : 1 ≤ q) (hP : chooseGenerator q = some P)
    (hno : P.NoOverflow) : P.Covers := by
  obtain ⟨P', hP', hqs, hle, hF, h2⟩ := chooseGenerator_spec hq
  obtain rfl : P' = P := Option.some.inj (hP'.symm.trans hP)
  rw [← hqs] at hle
  have hsize : P'.qSize ≤ 2 ^ 63 := hle.trans (modlength_le hno h2)
  have hpos : 0 < P'.qSize := by omega
  by_cases h1 : 1 < P'.qSize
  · have htry := fun i (hi : i < P'.qSize) => tryAt_eq_visit hF hle hno h1 hi
    have hlt := fun i (hi : i < P'.qSize) => Lcg.visit_lt hF (h1.trans_le hle) hle hi
    refine ⟨?_, ?_, ?_⟩
    · intro i hi
      rcases Nat.lt_or_eq_of_le hi with hi | rfl
      · exact ⟨_, htry i hi⟩
      · -- the last step is taken too, though its value is not used
        obtain ⟨k, hk⟩ := Nat.exists_eq_succ_of_ne_zero hpos.ne'
        rw [hk, Nat.succ_eq_add_one, tryAt, htry k (by omega), Option.bind_some,
          advance_eq_seek hno ((hlt k (by omega)).trans_le hle)]
        exact Lcg.exists_seek_next hF hpos hle (Lcg.next_lt hF.pos)
    · intro firstTry hf j hj
      have hx : (j + (P'.qSize - firstTry)) % P'.qSize < P'.qSize := Nat.mod_lt _ hpos
      obtain ⟨i, hi, hvisit⟩ := Lcg.exists_visit hF (h1.trans_le hle) hle hx
      refine ⟨i, hi, _, htry i hi, ?_⟩
      rw [hvisit, index_eq_mod hsize hf hx, Nat.mod_add_mod,
        show j + (P'.qSize - firstTry) + firstTry = j + P'.qSize by omega, Nat.add_mod_right]
      exact Nat.mod_eq_of_lt hj
    · intro firstTry hf i i' x x' hi hi' hx hx' heq
      obtain rfl : _ = x := Option.some.inj ((htry i hi).symm.trans hx)
      obtain rfl : _ = x' := Option.some.inj ((htry i' hi').symm.trans hx')
      rw [index_eq_mod hsize hf (hlt i hi), index_eq_mod hsize hf (hlt i' hi')] at heq
      exact Lcg.visit_injOn hF (h1.trans_le hle) hle hi hi'
        (add_mod_cancel (hlt i hi) (hlt i' hi') heq)
  · -- a single page: the only pass looks at index 0
    have hone : q = 1 := by omega
    have hP1 : P' = ⟨1, 1, 1, 1⟩ := by
      rw [hone] at hP
      exact (Option.some.inj hP).symm
    subst hP1
    refine ⟨?_, ?_, ?_⟩
    · intro i hi
      rcases Nat.lt_or_eq_of_le hi with hi | rfl
      · exact ⟨1, by rw [Nat.lt_one_iff.mp hi]; rfl⟩
      · exact ⟨0, by decide⟩
    · intro firstTry hf j hj
      refine ⟨0, hpos, 1, rfl, ?_⟩
      have := index_lt hpos firstTry 1
      omega
    · intro firstTry _ i i' x x' hi hi' _ _ _
      omega

end Path

/-! ## The queue -/

/-- What `queue_metric_` selects to be measured in the `touch` field. -/
inductive QueueMetric
  | kTries
  | kTouch
  deriving DecidableEq, Repr

/-- The fields of `FineLockPEQueue` that stay as the constructor set them. -/
structure FineLockPEQueue extends Path where
  pageSize : Nat
  queueMetric : QueueMetric
  deriving DecidableEq, Repr

/-- `FineLockPEQueue::FineLockPEQueue`. All page locks start out taken. -/
def FineLockPEQueue.construct (queuesize pagesize : Nat) : Option FineLockPEQueue :=
  (chooseGenerator queuesize).map fun P => ⟨P, pagesize, .kTouch⟩

/-- The shared arrays `pages_` and `pagelocks_`. -/
structure Pages where
  pages : Nat → PageEntry
  pagelocks : Nat → Bool

/-- `pthread_mutex_lock`, `pthread_mutex_unlock` on one page lock. -/
def Pages.setLock (s : Pages) (i : Nat) (b : Bool) : Pages :=
  { s with pagelocks := Function.update s.pagelocks i b }

/-- A store to one entry. -/
def Pages.setEntry (s : Pages) (i : Nat) (pe : PageEntry) : Pages :=
  { s with pages := Function.update s.pages i pe }

/-- A page that a search for `kind` and `tag` may take. -/
def Pages.Available (s : Pages) (kind : PageKind) (tag : Word32) (i : Nat) : Prop :=
  s.pagelocks i = false ∧ kind.holds (s.pages i) = true ∧ tagMatches tag (s.pages i).tag = true

namespace FineLockPEQueue

/-- `*pe = pages_[index];` with the metrics of a valid page, found in pass `i`. -/
def copyOut (Q : FineLockPEQueue) (kind : PageKind) (i : Nat) (entry : PageEntry) : PageEntry :=
  match kind, Q.queueMetric with
  | .valid, .kTries => { entry with touch := BitVec.ofNat 32 i }
  | .valid, .kTouch => { entry with touch := entry.touch + 1 }
  | .empty, _ => entry

/-- The search loop with `n` passes to go, in pass `q_size_ - n`: the entry found, if any,
and the arrays it leaves. `none` stands for a discard loop that does not end. -/
def searchLoop (Q : FineLockPEQueue) (kind : PageKind) (tag : Word32) (firstTry : Nat) :
    Nat → Nat → Pages → Option (Option PageEntry × Pages)
  | 0, _, s => some (none, s)
  | n + 1, nextTry, s => do
    let index := Q.index firstTry nextTry
    let nextTry ← Q.advance nextTry
    if !kind.holds (s.pages index) then Q.searchLoop kind tag firstTry n nextTry s
    else if !tagMatches tag (s.pages index).tag then Q.searchLoop kind tag firstTry n nextTry s
    else if s.pagelocks index then Q.searchLoop kind tag firstTry n nextTry s
    else
      let s' := s.setLock index true
      if !kind.holds (s'.pages index) then
        Q.searchLoop kind tag firstTry n nextTry (s'.setLock index false)
      else pure (some (Q.copyOut kind (Q.qSize - (n + 1)) (s'.pages index)), s')

/-- `FineLockPEQueue::GetRandomWithPredicateTag` without interruption, with the value of
`GetRandom64()`. -/
def getRandomWithPredicateTag (Q : FineLockPEQueue) (kind : PageKind) (tag : Word32)
    (random64 : Nat) (s : Pages) : Option (Option PageEntry × Pages) :=
  if Q.qSize = 0 then some (none, s)
  else Q.searchLoop kind tag (random64 % Q.qSize) Q.qSize 1 s

/-- `FineLockPEQueue::PutEmpty` -/
def putEmpty (Q : FineLockPEQueue) (pe : PageEntry) (s : Pages) : Bool × Pages :=
  if Q.qSize = 0 then (false, s)
  else if pe.offset / Q.pageSize < Q.qSize then
    (true, (s.setEntry (pe.offset / Q.pageSize) pe.cleared).setLock (pe.offset / Q.pageSize) false)
  else (false, s)

/-- `FineLockPEQueue::PutValid` -/
def putValid (Q : FineLockPEQueue) (pe : PageEntry) (s : Pages) : Bool × Pages :=
  if !PageKind.holds .valid pe || Q.qSize == 0 then (false, s)
  else if pe.offset / Q.pageSize < Q.qSize then
    (true, (s.setEntry (pe.offset / Q.pageSize) pe).setLock (pe.offset / Q.pageSize) false)
  else (false, s)

/-- The indices the passes of the loop produce. -/
def searchOrder (Q : FineLockPEQueue) (firstTry : Nat) : Nat → Nat → Option (List Nat)
  | 0, _ => some []
  | n + 1, nextTry => do
    let index := Q.index firstTry nextTry
    let nextTry ← Q.advance nextTry
    (Q.searchOrder firstTry n nextTry).map (index :: ·)

/-- A found entry is a page the search may take, and only its lock has changed. -/
structure Found (Q : FineLockPEQueue) (kind : PageKind) (tag : Word32) (s : Pages)
    (pe : PageEntry) (s' : Pages) (i : Nat) : Prop where
  lt : i < Q.qSize
  available : s.Available kind tag i
  entry : ∃ pass, pe = Q.copyOut kind pass (s.pages i)
  locks : s' = s.setLock i true

theorem construct_spec {q : Nat} (pagesize : Nat) (hq : 1 ≤ q) :
    ∃ Q, construct q pagesize = some Q ∧ chooseGenerator q = some Q.toPath ∧ Q.qSize = q ∧
      Q.pageSize = pagesize := by
  obtain ⟨P, hP, hqs, -⟩ := chooseGenerator_spec hq
  exact ⟨⟨P, pagesize, .kTouch⟩, by simp [construct, hP], hP, hqs, rfl⟩

theorem construct_fields {q pagesize : Nat} {Q : FineLockPEQueue}
    (hQ : construct q pagesize = some Q) : Q.qSize = q ∧ Q.pageSize = pagesize := by
  cases q with
  | zero =>
      obtain rfl := Option.some.inj hQ
      exact ⟨rfl, rfl⟩
  | succ q =>
      obtain ⟨Q', hQ', -, hqs, hps⟩ := construct_spec pagesize (Nat.succ_pos q)
      obtain rfl : Q' = Q := Option.some.inj (hQ'.symm.trans hQ)
      exact ⟨hqs, hps⟩

/-- A pass that looks at an unavailable page leaves the arrays as they are. -/
theorem searchLoop_skip {Q : FineLockPEQueue} {kind : PageKind} {tag : Word32}
    {firstTry n nextTry nextTry' : Nat} {s : Pages} (hadv : Q.advance nextTry = some nextTry')
    (hna : ¬ s.Available kind tag (Q.index firstTry nextTry)) :
    Q.searchLoop kind tag firstTry (n + 1) nextTry s =
      Q.searchLoop kind tag firstTry n nextTry' s := by
  rw [searchLoop, hadv, Option.bind_eq_bind, Option.bind_some]
  by_cases h1 : kind.holds (s.pages (Q.index firstTry nextTry)) = true
  · by_cases h2 : tagMatches tag (s.pages (Q.index firstTry nextTry)).tag = true
    · by_cases h3 : s.pagelocks (Q.index firstTry nextTry) = true
      · simp [h1, h2, h3]
      · exact absurd ⟨by simpa using h3, h1, h2⟩ hna
    · simp [h1, h2]
  · simp [h1]

/-- The remaining passes of a search find a page that may be taken or look at none. -/
theorem searchLoop_spec {Q : FineLockPEQueue} (hC : Q.Covers) (kind : PageKind) (tag : Word32)
    (firstTry : Nat) {n nextTry : Nat} (hn : n ≤ Q.qSize) (htry : Q.tryAt (Q.qSize - n) = some nextTry)
    (s : Pages) :
    (∃ pe s' i, Q.searchLoop kind tag firstTry n nextTry s = some (some pe, s') ∧
      Found Q kind tag s pe s' i) ∨
    (Q.searchLoop kind tag firstTry n nextTry s = some (none, s) ∧
      ∀ i x, Q.qSize - n ≤ i → i < Q.qSize → Q.tryAt i = some x →
        ¬ s.Available kind tag (Q.index firstTry x)) := by
  induction n generalizing nextTry with
  | zero => exact .inr ⟨rfl, fun i x h1 h2 => by omega⟩
  | succ n ih =>
      obtain ⟨nextTry', htry'⟩ := hC.defined (Q.qSize - n) (by omega)
      have hadv : Q.advance nextTry = some nextTry' := by
        rw [show Q.qSize - n = Q.qSize - (n + 1) + 1 by omega, Path.tryAt, htry] at htry'
        exact htry'
      by_cases hav : s.Available kind tag (Q.index firstTry nextTry)
      · refine .inl ⟨_, s.setLock (Q.index firstTry nextTry) true, Q.index firstTry nextTry, ?_,
          Path.index_lt (by omega) _ _, hav, ⟨Q.qSize - (n + 1), rfl⟩, rfl⟩
        obtain ⟨hlock, hkind, htag⟩ := hav
        simp [searchLoop, hadv, hkind, htag, hlock, Pages.setLock]
      · rw [searchLoop_skip hadv hav]
        rcases ih (by omega) htry' with ⟨pe, s', i, heq, hfound⟩ | ⟨heq, hnone⟩
        · exact .inl ⟨pe, s', i, heq, hfound⟩
        · refine .inr ⟨heq, fun i x hge hlt hx => ?_⟩
          rcases Nat.lt_or_eq_of_le hge with hgt | rfl
          · exact hnone i x (by omega) hlt hx
          · obtain rfl : nextTry = x := Option.some.inj (htry.symm.trans hx)
            exact hav

/-- The loop produces the index of each of its passes. -/
theorem searchOrder_spec {Q : FineLockPEQueue} (hC : Q.Covers) (firstTry : Nat) {n nextTry : Nat}
    (hn : n ≤ Q.qSize) (htry : Q.tryAt (Q.qSize - n) = some nextTry) :
    ∃ order, Q.searchOrder firstTry n nextTry = some order ∧ order.length = n ∧
      ∀ k < n, ∃ x, Q.tryAt (Q.qSize - n + k) = some x ∧ order[k]? = some (Q.index firstTry x) := by
  induction n generalizing nextTry with
  | zero => exact ⟨[], rfl, rfl, fun k hk => by omega⟩
  | succ n ih =>
      obtain ⟨nextTry', htry'⟩ := hC.defined (Q.qSize - n) (by omega)
      have hadv : Q.advance nextTry = some nextTry' := by
        rw [show Q.qSize - n = Q.qSize - (n + 1) + 1 by omega, Path.tryAt, htry] at htry'
        exact htry'
      obtain ⟨order, heq, hlen, hget⟩ := ih (by omega) htry'
      refine ⟨Q.index firstTry nextTry :: order, ?_, by simp [hlen], fun k hk => ?_⟩
      · rw [searchOrder, hadv, Option.bind_eq_bind, Option.bind_some, heq, Option.map_some]
      · cases k with
        | zero => exact ⟨nextTry, htry, rfl⟩
        | succ k =>
            obtain ⟨x, hx, hk'⟩ := hget k (by omega)
            exact ⟨x, by rw [← hx]; congr 1; omega, by simpa using hk'⟩

theorem searchOrder_perm {Q : FineLockPEQueue} (hC : Q.Covers) {firstTry : Nat}
    (hf : firstTry < Q.qSize) :
    ∃ order, Q.searchOrder firstTry Q.qSize 1 = some order ∧ order.Perm (List.range Q.qSize) := by
  have hstart : Q.tryAt (Q.qSize - Q.qSize) = some 1 := by rw [Nat.sub_self, Path.tryAt]
  obtain ⟨order, heq, hlen, hget⟩ := searchOrder_spec hC firstTry le_rfl hstart
  simp only [Nat.sub_self, Nat.zero_add] at hget
  refine ⟨order, heq, (List.perm_ext_iff_of_nodup ?_ List.nodup_range).mpr fun j => ?_⟩
  · rw [List.nodup_iff_getElem?_ne_getElem?]
    intro i j hij hj heq'
    obtain ⟨x, hx, hix⟩ := hget i (by omega)
    obtain ⟨y, hy, hjy⟩ := hget j (by omega)
    rw [hix, hjy, Option.some.injEq] at heq'
    exact hij.ne (hC.inj firstTry hf i j x y (by omega) (by omega) hx hy heq')
  · rw [List.mem_range, List.mem_iff_getElem?]
    constructor
    · rintro ⟨k, hk⟩
      obtain ⟨hklt, -⟩ := List.getElem?_eq_some_iff.mp hk
      obtain ⟨x, -, hkx⟩ := hget k (by omega)
      rw [hkx, Option.some.injEq] at hk
      exact hk ▸ Path.index_lt (by omega) _ _
    · intro hj
      obtain ⟨i, hi, x, hx, rfl⟩ := hC.surj firstTry hf j hj
      obtain ⟨y, hy, hiy⟩ := hget i hi
      obtain rfl : x = y := Option.some.inj (hx.symm.trans hy)
      exact ⟨i, hiy⟩

/-- **An undisturbed search** finds a page that may be taken, or there is none. -/
theorem getRandomWithPredicateTag_spec {Q : FineLockPEQueue} (hC : Q.Covers) (kind : PageKind)
    (tag : Word32) (random64 : Nat) (s : Pages) :
    (∃ pe s' i, Q.getRandomWithPredicateTag kind tag random64 s = some (some pe, s') ∧
      Found Q kind tag s pe s' i) ∨
    (Q.getRandomWithPredicateTag kind tag random64 s = some (none, s) ∧
      ∀ j < Q.qSize, ¬ s.Available kind tag j) := by
  unfold getRandomWithPredicateTag
  split
  · next hzero => exact .inr ⟨rfl, fun j hj => by omega⟩
  · next hzero =>
    have hf : random64 % Q.qSize < Q.qSize := Nat.mod_lt _ (Nat.pos_of_ne_zero hzero)
    have hstart : Q.tryAt (Q.qSize - Q.qSize) = some 1 := by rw [Nat.sub_self, Path.tryAt]
    refine (searchLoop_spec hC kind tag (random64 % Q.qSize) le_rfl hstart s).imp id ?_
    rintro ⟨heq, hnone⟩
    refine ⟨heq, fun j hj => ?_⟩
    obtain ⟨i, hi, x, hx, rfl⟩ := hC.surj _ hf j hj
    exact hnone i x (by omega) hi hx

end FineLockPEQueue

open FineLockPEQueue in
/-- **Completeness of the search.** For every queue size the constructor ends, and while its
products fit 64 bits, every search looks at each index once. Undisturbed, it returns an entry
if and only if there is one to take, namely one such entry, and changes its lock only. -/
theorem getRandomWithPredicateTag_complete {q : Nat} (pagesize : Nat) (hq : 1 ≤ q) :
    ∃ Q, construct q pagesize = some Q ∧ (Q.a * (Q.modlength - 1) + Q.c < 2 ^ 64 →
      ∀ random64,
        (∃ order, Q.searchOrder (random64 % q) q 1 = some order ∧
          order.Perm (List.range q)) ∧
        ∀ kind tag s, ∃ r s', Q.getRandomWithPredicateTag kind tag random64 s = some (r, s') ∧
          (r.isSome ↔ ∃ i < q, s.Available kind tag i) ∧ (r = none → s' = s) ∧
          ∀ pe, r = some pe → ∃ i, Found Q kind tag s pe s' i) := by
  obtain ⟨Q, hQ, hP, rfl, -⟩ := construct_spec pagesize hq
  refine ⟨Q, hQ, fun hno random64 => ?_⟩
  have hC := Path.covers hq hP hno
  have hf : random64 % Q.qSize < Q.qSize := Nat.mod_lt _ hq
  refine ⟨searchOrder_perm hC hf, fun kind tag s => ?_⟩
  rcases getRandomWithPredicateTag_spec hC kind tag random64 s with
    ⟨pe, s', i, heq, hfound⟩ | ⟨heq, hnone⟩
  · refine ⟨some pe, s', heq, ?_, by simp, ?_⟩
    · simpa using ⟨i, hfound.lt, hfound.available⟩
    · intro pe' hpe
      exact ⟨i, Option.some.inj hpe ▸ hfound⟩
  · refine ⟨none, s, heq, ?_, fun _ => rfl, by simp⟩
    simpa only [Option.isSome_none, Bool.false_eq_true, false_iff, not_exists, not_and] using hnone

open FineLockPEQueue in
/-- Five pages: no generator below the modulus 8 is nontrivial. -/
theorem getRandomWithPredicateTag_complete_five :
    ∃ Q, construct 5 4096 = some Q ∧ Q.a * (Q.modlength - 1) + Q.c < 2 ^ 64 ∧ Q.modlength = 8 ∧
      ∃ order, Q.searchOrder (3 % 5) 5 1 = some order ∧ order.Perm (List.range 5) := by
  obtain ⟨Q, hQ, h⟩ := getRandomWithPredicateTag_complete (q := 5) 4096 (by decide)
  have h5 : construct 5 4096 = some ⟨⟨5, 5, 7, 8⟩, 4096, .kTouch⟩ := by decide +kernel
  obtain rfl : _ = Q := Option.some.inj (h5.symm.trans hQ)
  have hno : 5 * (8 - 1) + 7 < 2 ^ 64 := by norm_num
  exact ⟨_, h5, hno, rfl, (h hno 3).1⟩

end StressAppTest.FineLock
