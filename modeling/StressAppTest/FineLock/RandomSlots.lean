import StressAppTest.Adler
import StressAppTest.Library.FullPeriod
import StressAppTest.Library.LockLadder
import StressAppTest.Library.Ownership

/-!
# The random numbers of the queue (`finelock_queue.cc`)

`GetRandom64` draws from one of four generators. Each has its own seed and lock: a call tries the
locks in order, and waits for the first one if all of them are taken. Threads are interleaved at
every access to a lock or a seed.

The draws of a slot are the orbit of its seed, in order: no draw is lost or made twice, each call
returns its own, and since the generator has full period (`Library.FullPeriod`) a number comes back
after exactly `2 ^ 64` draws. A call goes on to the next slot only past another call that has the lock
(`Library.LockLadder`), so with `n` threads only the first `n` slots are used, and with at most four
threads no call waits.
-/

namespace StressAppTest.FineLock

open Ownership LockLadder

/-- The new seed of a slot, which is also what `GetRandom64FromSlot` returns. -/
def getRandom64FromSlot (seed : Word64) : Word64 := 2862933555777941757 * seed + 3037000493

/-- Where a thread is in `GetRandom64`. -/
inductive RandomPc
  | idle
  /-- Before the `trylock` of slot `i`. -/
  | trying (i : Fin 4)
  /-- At the lock of the first slot, after all four were taken. -/
  | waiting
  /-- The lock is taken, the seed not read. -/
  | locked (i : Fin 4)
  /-- Before `rand_seed_[slot] = result`. -/
  | computed (i : Fin 4) (result : Word64)
  /-- Before the unlock. -/
  | stored (i : Fin 4) (result : Word64)
  /-- Before the return. -/
  | unlocked (result : Word64)
  deriving DecidableEq, Repr

/-- The slots, with where each thread is, the draws in the order of the stores, and what the calls
of each thread have returned. -/
structure RandomSlots (τ : Type) where
  randSeed : Fin 4 → Word64
  randlocks : Fin 4 → Bool
  pc : τ → RandomPc
  draws : List (τ × Fin 4 × Word64)
  returned : τ → List Word64

namespace RandomSlots

variable {τ : Type} [DecidableEq τ]

/-- The seeds of the constructor. -/
def start (τ : Type) : RandomSlots τ where
  randSeed i := BitVec.ofNat 64 (i + 0xbeef)
  randlocks _ := false
  pc _ := .idle
  draws := []
  returned _ := []

def goto (s : RandomSlots τ) (t : τ) (pc : RandomPc) : RandomSlots τ :=
  { s with pc := Function.update s.pc t pc }

/-- The next step of thread `t` in `GetRandom64`, or in its next call. -/
def getRandom64 (s : RandomSlots τ) (t : τ) : Option (RandomSlots τ) :=
  match s.pc t with
  | .idle => some (s.goto t (.trying 0))
  | .trying i =>
      if s.randlocks i then
        some (s.goto t (if h : i.val + 1 < 4 then .trying ⟨i.val + 1, h⟩ else .waiting))
      else some ({ s with randlocks := Function.update s.randlocks i true }.goto t (.locked i))
  | .waiting =>
      if s.randlocks 0 then none
      else some ({ s with randlocks := Function.update s.randlocks 0 true }.goto t (.locked 0))
  | .locked i => some (s.goto t (.computed i (getRandom64FromSlot (s.randSeed i))))
  | .computed i result =>
      some ({ s with
        randSeed := Function.update s.randSeed i result
        draws := s.draws ++ [(t, i, result)] }.goto t (.stored i result))
  | .stored i result =>
      some ({ s with randlocks := Function.update s.randlocks i false }.goto t (.unlocked result))
  | .unlocked result =>
      some ({ s with returned := Function.update s.returned t (s.returned t ++ [result]) }.goto t .idle)

/-- The threads take steps in the order of a schedule. -/
def run (s : RandomSlots τ) (schedule : List τ) : Option (RandomSlots τ) :=
  schedule.foldlM getRandom64 s

/-- The draws from slot `i`. -/
def slotDraws (s : RandomSlots τ) (i : Fin 4) : List Word64 :=
  s.draws.filterMap fun d => if d.2.1 = i then some d.2.2 else none

/-- The draws of thread `t`. -/
def threadDraws (s : RandomSlots τ) (t : τ) : List Word64 :=
  s.draws.filterMap fun d => if d.1 = t then some d.2.2 else none

end RandomSlots

namespace RandomPc

/-- The slot whose lock the thread has. -/
def held : RandomPc → Multiset (Fin 4)
  | .locked i | .computed i _ | .stored i _ => {i}
  | _ => 0

/-- How many slots the call has gone past. -/
def rung : RandomPc → Nat
  | .trying i | .locked i | .computed i _ | .stored i _ => i
  | .waiting => 4
  | _ => 0

/-- The draw that is made and not returned. -/
def undelivered : RandomPc → List Word64
  | .stored _ result | .unlocked result => [result]
  | _ => []

theorem rung_of_held {pc : RandomPc} {i : Fin 4} (h : i ∈ pc.held) : pc.rung = i := by
  cases pc with
  | locked j | computed j result | stored j result =>
      rw [held, Multiset.mem_singleton] at h
      rw [h]
      rfl
  | _ => exact absurd h (Multiset.notMem_zero i)

end RandomPc

/-! ## The generator -/

/-- The `k`-th number of a slot; the seed of the constructor comes first. -/
def orbit (i : Fin 4) (k : Nat) : Word64 := getRandom64FromSlot^[k] (BitVec.ofNat 64 (i + 0xbeef))

theorem orbit_succ (i : Fin 4) (k : Nat) : orbit i (k + 1) = getRandom64FromSlot (orbit i k) :=
  Function.iterate_succ_apply' _ _ _

theorem toNat_getRandom64FromSlot (seed : Word64) :
    (getRandom64FromSlot seed).toNat = Lcg.next 2862933555777941757 3037000493 (2 ^ 64) seed.toNat := by
  rw [getRandom64FromSlot, Lcg.next, BitVec.toNat_add, BitVec.toNat_mul]
  exact Nat.mod_add_mod _ _ _

theorem toNat_iterate (seed : Word64) (k : Nat) : (getRandom64FromSlot^[k] seed).toNat =
    (Lcg.next 2862933555777941757 3037000493 (2 ^ 64))^[k] seed.toNat := by
  induction k with
  | zero => rfl
  | succ k ih => rw [Function.iterate_succ_apply', Function.iterate_succ_apply', toNat_getRandom64FromSlot, ih]

theorem fullPeriod_getRandom64 : Lcg.FullPeriod 2862933555777941757 3037000493 (2 ^ 64) where
  pos := by decide
  one_le := by decide
  coprime := Nat.Coprime.pow_right _ (by decide)
  prime_dvd p hp hdvd := by
    obtain rfl : p = 2 := (Nat.prime_dvd_prime_iff_eq hp Nat.prime_two).mp (hp.dvd_of_dvd_pow hdvd)
    decide
  four_dvd _ := by decide

/-- No number comes back in fewer than `2 ^ 64` draws. -/
theorem orbit_inj {i : Fin 4} {j k : Nat} (hjk : j ≤ k) (hk : k < j + 2 ^ 64) (h : orbit i k = orbit i j) :
    k = j := by
  obtain ⟨d, rfl⟩ := Nat.exists_eq_add_of_le' hjk
  have hiter : getRandom64FromSlot^[d] (orbit i j) = getRandom64FromSlot^[0] (orbit i j) :=
    (Function.iterate_add_apply _ _ _ _).symm.trans h
  have hnat := congrArg BitVec.toNat hiter
  rw [toNat_iterate, toNat_iterate] at hnat
  have hzero := Lcg.iterate_next_injOn fullPeriod_getRandom64 (orbit i j).isLt (by omega) (by decide) hnat
  omega

/-- Every number is drawn within `2 ^ 64` draws. -/
theorem exists_orbit (i : Fin 4) (j : Nat) (y : Word64) : ∃ k, j ≤ k ∧ k < j + 2 ^ 64 ∧ orbit i k = y := by
  obtain ⟨d, hd, hy⟩ := Lcg.exists_iterate_next fullPeriod_getRandom64 (orbit i j).isLt y.isLt
  refine ⟨d + j, by omega, by omega, ?_⟩
  rw [orbit, Function.iterate_add_apply]
  apply BitVec.eq_of_toNat_eq
  rw [toNat_iterate]
  exact hy

/-! ## Every interleaving -/

namespace RandomSlots

variable {τ : Type} [DecidableEq τ]

/-- What every step keeps. -/
structure Inv [Fintype τ] (s : RandomSlots τ) : Prop where
  exclusive : Exclusive (fun _ => True) s.randlocks (RandomPc.held ∘ s.pc)
  spread : Spread (RandomPc.rung ∘ s.pc)
  seed : ∀ i, s.randSeed i = orbit i (s.slotDraws i).length
  computed : ∀ t i result, s.pc t = .computed i result → result = getRandom64FromSlot (s.randSeed i)
  draws : ∀ i, s.slotDraws i = (List.range (s.slotDraws i).length).map fun k => orbit i (k + 1)
  returned : ∀ t, s.returned t ++ (s.pc t).undelivered = s.threadDraws t

theorem inv_start [Fintype τ] : (start τ).Inv where
  exclusive := by
    refine ⟨fun _ => trivial, fun t => Multiset.nodup_zero, ?_, fun {i} _ => ?_⟩
    · intro t t' i h
      exact absurd h (Multiset.notMem_zero i)
    · refine iff_of_false Bool.false_ne_true ?_
      rintro ⟨t, h⟩
      exact Multiset.notMem_zero i h
  spread := spread_zero
  seed _ := rfl
  computed t i result h := by cases h
  draws _ := rfl
  returned _ := rfl

section Step

variable [Fintype τ] {s : RandomSlots τ} {t : τ} {pc : RandomPc}

omit [Fintype τ] in
theorem held_goto (s : RandomSlots τ) (t : τ) (pc : RandomPc) :
    RandomPc.held ∘ (s.goto t pc).pc = Function.update (RandomPc.held ∘ s.pc) t pc.held :=
  Function.comp_update _ _ _ _

omit [Fintype τ] in
theorem rung_goto (s : RandomSlots τ) (t : τ) (pc : RandomPc) :
    RandomPc.rung ∘ (s.goto t pc).pc = Function.update (RandomPc.rung ∘ s.pc) t pc.rung :=
  Function.comp_update _ _ _ _

/-- A thread that has the lock of a slot is on its rung. -/
theorem Spread.goto_le (h : Spread (RandomPc.rung ∘ s.pc)) (hle : pc.rung ≤ (s.pc t).rung) :
    Spread (RandomPc.rung ∘ (s.goto t pc).pc) := by
  rw [rung_goto]
  refine h.descend fun u => ?_
  by_cases hu : u = t
  · subst hu
    rwa [Function.update_self]
  · rw [Function.update_of_ne hu]

/-- The rest of the invariant after a step of `t` that neither draws nor returns a number. -/
theorem Inv.goto (h : s.Inv) {randlocks : Fin 4 → Bool}
    (hexclusive : Exclusive (fun _ => True) randlocks (RandomPc.held ∘ (s.goto t pc).pc))
    (hspread : Spread (RandomPc.rung ∘ (s.goto t pc).pc))
    (hcomputed : ∀ i result, pc = .computed i result → result = getRandom64FromSlot (s.randSeed i))
    (hundelivered : pc.undelivered = (s.pc t).undelivered) :
    ({ s with randlocks := randlocks }.goto t pc).Inv where
  exclusive := hexclusive
  spread := hspread
  seed := h.seed
  computed u i result hu := by
    change Function.update s.pc t pc u = _ at hu
    by_cases hut : u = t
    · subst hut
      rw [Function.update_self] at hu
      exact hcomputed i result hu
    · rw [Function.update_of_ne hut] at hu
      exact h.computed u i result hu
  draws := h.draws
  returned u := by
    change s.returned u ++ (Function.update s.pc t pc u).undelivered = s.threadDraws u
    by_cases hut : u = t
    · subst hut
      rw [Function.update_self, hundelivered]
      exact h.returned u
    · rw [Function.update_of_ne hut]
      exact h.returned u

/-- Nothing is locked or unlocked. -/
theorem Inv.exclusive_goto (h : s.Inv) (hheld : pc.held = (s.pc t).held) :
    Exclusive (fun _ => True) s.randlocks (RandomPc.held ∘ (s.goto t pc).pc) := by
  rw [held_goto, hheld]
  have hself : Function.update (RandomPc.held ∘ s.pc) t (s.pc t).held = RandomPc.held ∘ s.pc :=
    Function.update_eq_self t (RandomPc.held ∘ s.pc)
  rw [hself]
  exact h.exclusive

/-- The lock of slot `i` is taken. -/
theorem Inv.acquire (h : s.Inv) {i : Fin 4} (hfree : s.randlocks i = false) (hheld : (s.pc t).held = 0)
    (hundelivered : (s.pc t).undelivered = []) (hrung : i ≤ (s.pc t).rung) :
    ({ s with randlocks := Function.update s.randlocks i true }.goto t (.locked i)).Inv := by
  refine h.goto ?_ (Spread.goto_le h.spread hrung) (fun _ _ hcon => by cases hcon) hundelivered.symm
  have hnew := h.exclusive.acquire (t := t) (i := i) trivial hfree
  rw [held_goto]
  rwa [Function.comp_apply, hheld] at hnew

/-- A call that finds slot `i` locked goes on. -/
theorem Inv.climb (h : s.Inv) {i : Fin 4} (hpc : s.pc t = .trying i) (hlocked : s.randlocks i = true) :
    (s.goto t (if h : i.val + 1 < 4 then .trying ⟨i.val + 1, h⟩ else .waiting)).Inv := by
  have hrung : RandomPc.rung (if h : i.val + 1 < 4 then .trying ⟨i.val + 1, h⟩ else .waiting) = i.val + 1 := by
    split
    · rfl
    · change 4 = i.val + 1
      omega
  have hheld : RandomPc.held (if h : i.val + 1 < 4 then .trying ⟨i.val + 1, h⟩ else .waiting) = 0 := by
    split <;> rfl
  have hundelivered :
      RandomPc.undelivered (if h : i.val + 1 < 4 then .trying ⟨i.val + 1, h⟩ else .waiting) = [] := by
    split <;> rfl
  refine h.goto (h.exclusive_goto (by rw [hheld, hpc]; rfl)) ?_ ?_ (by rw [hundelivered, hpc]; rfl)
  · -- another thread has the lock
    obtain ⟨u, hu⟩ := (h.exclusive.locked_iff trivial).mp hlocked
    have hne : u ≠ t := by
      rintro rfl
      rw [Function.comp_apply, hpc] at hu
      exact Multiset.notMem_zero i hu
    have htop : (RandomPc.rung ∘ s.pc) t = i := by rw [Function.comp_apply, hpc]; rfl
    have hclimb := h.spread.climb hne ((RandomPc.rung_of_held hu).trans htop.symm)
    rw [htop] at hclimb
    rwa [rung_goto, hrung]
  · intro j result hcon
    split at hcon <;> cases hcon

omit [DecidableEq τ] [Fintype τ] in
theorem slotDraws_of_draw {s' : RandomSlots τ} {i : Fin 4} {result : Word64}
    (h : s'.draws = s.draws ++ [(t, i, result)]) (j : Fin 4) :
    s'.slotDraws j = s.slotDraws j ++ if i = j then [result] else [] := by
  rw [slotDraws, h, List.filterMap_append]
  congr 1
  by_cases hij : i = j <;> simp [hij]

omit [Fintype τ] in
theorem threadDraws_of_draw {s' : RandomSlots τ} {i : Fin 4} {result : Word64}
    (h : s'.draws = s.draws ++ [(t, i, result)]) (u : τ) :
    s'.threadDraws u = s.threadDraws u ++ if t = u then [result] else [] := by
  rw [threadDraws, h, List.filterMap_append]
  congr 1
  by_cases hut : t = u <;> simp [hut]

/-- A number is drawn. -/
theorem Inv.draw (h : s.Inv) {i : Fin 4} {result : Word64} (hpc : s.pc t = .computed i result) :
    ({ s with
      randSeed := Function.update s.randSeed i result
      draws := s.draws ++ [(t, i, result)] }.goto t (.stored i result)).Inv := by
  have hresult : result = orbit i ((s.slotDraws i).length + 1) := by
    rw [orbit_succ, ← h.seed i]
    exact h.computed t i result hpc
  refine ⟨h.exclusive_goto (by rw [hpc]; rfl), Spread.goto_le h.spread (by rw [hpc]; rfl), fun j => ?_,
    fun u j r hu => ?_, fun j => ?_, fun u => ?_⟩
  · change Function.update s.randSeed i result j = _
    rw [slotDraws_of_draw rfl j]
    by_cases hij : i = j
    · subst hij
      rw [Function.update_self, if_pos rfl, List.length_append]
      exact hresult
    · rw [Function.update_of_ne (Ne.symm hij), if_neg hij, List.append_nil]
      exact h.seed j
  · -- the slot of another draw under way is another one
    change Function.update s.pc t _ u = _ at hu
    change r = getRandom64FromSlot (Function.update s.randSeed i result j)
    by_cases hut : u = t
    · subst hut
      rw [Function.update_self] at hu
      cases hu
    · rw [Function.update_of_ne hut] at hu
      have hij : j ≠ i := by
        rintro rfl
        refine hut (h.exclusive.owner_unique (i := j) ?_ ?_)
        · rw [Function.comp_apply, hu]
          exact Multiset.mem_singleton_self j
        · rw [Function.comp_apply, hpc]
          exact Multiset.mem_singleton_self j
      rw [Function.update_of_ne hij]
      exact h.computed u j r hu
  · rw [slotDraws_of_draw rfl j]
    by_cases hij : i = j
    · subst hij
      rw [if_pos rfl, List.length_append, List.length_singleton, List.range_succ, List.map_append, ← h.draws i,
        hresult]
      rfl
    · rw [if_neg hij, List.append_nil]
      exact h.draws j
  · rw [threadDraws_of_draw rfl u, ← h.returned u]
    change s.returned u ++ (Function.update s.pc t (.stored i result) u).undelivered = _
    by_cases hut : u = t
    · subst hut
      rw [Function.update_self, if_pos rfl, hpc]
      simp [RandomPc.undelivered]
    · rw [Function.update_of_ne hut, if_neg (Ne.symm hut), List.append_nil]

/-- A call returns its number. -/
theorem Inv.deliver (h : s.Inv) {result : Word64} (hpc : s.pc t = .unlocked result) :
    ({ s with returned := Function.update s.returned t (s.returned t ++ [result]) }.goto t .idle).Inv := by
  refine ⟨h.exclusive_goto (by rw [hpc]; rfl), Spread.goto_le h.spread (by rw [hpc]; rfl), h.seed,
    fun u i r hu => ?_, h.draws, fun u => ?_⟩
  · change Function.update s.pc t _ u = _ at hu
    by_cases hut : u = t
    · subst hut
      rw [Function.update_self] at hu
      cases hu
    · rw [Function.update_of_ne hut] at hu
      exact h.computed u i r hu
  · change Function.update s.returned t (s.returned t ++ [result]) u ++
      (Function.update s.pc t RandomPc.idle u).undelivered = s.threadDraws u
    rw [← h.returned u]
    by_cases hut : u = t
    · subst hut
      rw [Function.update_self, Function.update_self, hpc]
      exact List.append_nil _
    · rw [Function.update_of_ne hut, Function.update_of_ne hut]

/-- **Every step keeps the invariant.** -/
theorem Inv.next {s' : RandomSlots τ} (h : s.Inv) (hnext : s.getRandom64 t = some s') : s'.Inv := by
  unfold getRandom64 at hnext
  split at hnext
  · next hpc =>
    obtain rfl := Option.some.inj hnext
    exact h.goto (h.exclusive_goto (by rw [hpc]; rfl)) (Spread.goto_le h.spread (Nat.zero_le _))
      (fun _ _ hcon => by cases hcon) (by rw [hpc]; rfl)
  · next i hpc =>
    split at hnext
    · next hlocked =>
      obtain rfl := Option.some.inj hnext
      exact h.climb hpc hlocked
    · next hfree =>
      obtain rfl := Option.some.inj hnext
      exact h.acquire (Bool.eq_false_of_not_eq_true hfree) (by rw [hpc]; rfl) (by rw [hpc]; rfl) (by rw [hpc]; rfl)
  · next hpc =>
    split at hnext
    · cases hnext
    · next hfree =>
      obtain rfl := Option.some.inj hnext
      exact h.acquire (Bool.eq_false_of_not_eq_true hfree) (by rw [hpc]; rfl) (by rw [hpc]; rfl) (Nat.zero_le _)
  · next i hpc =>
    obtain rfl := Option.some.inj hnext
    refine h.goto (h.exclusive_goto (by rw [hpc]; rfl)) (Spread.goto_le h.spread (by rw [hpc]; rfl)) ?_
      (by rw [hpc]; rfl)
    intro j result hcon
    cases hcon
    rfl
  · next i result hpc =>
    obtain rfl := Option.some.inj hnext
    exact h.draw hpc
  · next i result hpc =>
    obtain rfl := Option.some.inj hnext
    have hheld : (RandomPc.held ∘ s.pc) t = {i} := by rw [Function.comp_apply, hpc]; rfl
    refine h.goto ?_ (Spread.goto_le h.spread (Nat.zero_le _)) (fun _ _ hcon => by cases hcon) (by rw [hpc]; rfl)
    have hnew := h.exclusive.release (t := t) (i := i) (by rw [hheld]; exact Multiset.mem_singleton_self i)
    rw [held_goto]
    rwa [hheld, Multiset.erase_singleton] at hnew
  · next result hpc =>
    obtain rfl := Option.some.inj hnext
    exact h.deliver hpc

theorem inv_run {s' : RandomSlots τ} (h : s.Inv) {schedule : List τ} (hrun : s.run schedule = some s') :
    s'.Inv := by
  induction schedule generalizing s with
  | nil => exact Option.some.inj hrun ▸ h
  | cons t schedule ih =>
      obtain ⟨s₁, hnext, hrest⟩ := Option.bind_eq_some_iff.mp hrun
      exact ih (h.next hnext) hrest

end Step

/-- What is drawn from slot `i`, by position. -/
theorem Inv.getElem? [Fintype τ] {s : RandomSlots τ} (h : s.Inv) {i : Fin 4} {k : Nat} {y : Word64} :
    (s.slotDraws i)[k]? = some y ↔ k < (s.slotDraws i).length ∧ orbit i (k + 1) = y := by
  rw [h.draws i, List.getElem?_map, List.length_map, List.length_range]
  by_cases hk : k < (s.slotDraws i).length
  · simp [hk]
  · simp [hk]

/-- **The random numbers.** In every interleaving the draws from a slot are the orbit of its seed, each
call returns a draw of its own, a number comes back after exactly `2 ^ 64` draws of a slot, only as many
slots are used as there are threads, and a call waits only for another one that can go on. -/
theorem random_numbers [Fintype τ] {s : RandomSlots τ} {schedule : List τ}
    (hrun : (start τ).run schedule = some s) :
    (∀ i, s.slotDraws i = (List.range (s.slotDraws i).length).map fun k => orbit i (k + 1)) ∧
      (∀ t, s.returned t ++ (s.pc t).undelivered = s.threadDraws t) ∧
      (∀ i j k y, j < k → k < j + 2 ^ 64 → (s.slotDraws i)[j]? = some y → (s.slotDraws i)[k]? ≠ some y) ∧
      (∀ i j, j + 2 ^ 64 ≤ (s.slotDraws i).length → ∀ y, ∃ k, j ≤ k ∧ k < j + 2 ^ 64 ∧
        (s.slotDraws i)[k]? = some y) ∧
      (∀ t i, i ∈ (s.pc t).held → i.val < Fintype.card τ) ∧
      (Fintype.card τ ≤ 4 → ∀ t, s.pc t ≠ .waiting) ∧
      ∀ t, s.getRandom64 t = none → ∃ u, u ≠ t ∧ 0 ∈ (s.pc u).held ∧ (s.getRandom64 u).isSome := by
  have h : s.Inv := inv_run inv_start hrun
  refine ⟨h.draws, h.returned, fun i j k y hjk hk hj hcon => ?_, fun i j hj y => ?_, fun t i hi => ?_,
    fun hcard t hpc => ?_, fun t hnone => ?_⟩
  · have hsame : orbit i (k + 1) = orbit i (j + 1) := (h.getElem?.mp hcon).2.trans (h.getElem?.mp hj).2.symm
    have heq := orbit_inj (by omega) (by omega) hsame
    omega
  · obtain ⟨k, hle, hlt, hy⟩ := exists_orbit i (j + 1) y
    obtain ⟨k, rfl⟩ := Nat.exists_eq_add_of_le' (Nat.one_le_of_lt hle)
    exact ⟨k, by omega, by omega, h.getElem?.mpr ⟨by omega, hy⟩⟩
  · have hlt := h.spread.lt_card t
    rwa [Function.comp_apply, RandomPc.rung_of_held hi] at hlt
  · have hlt := h.spread.lt_card t
    rw [Function.comp_apply, hpc] at hlt
    exact absurd hlt (Nat.not_lt.mpr hcard)
  · unfold getRandom64 at hnone
    split at hnone
    case h_2 => split at hnone <;> cases hnone
    case h_3 hpc =>
      split at hnone
      · next hlocked =>
        obtain ⟨u, hu⟩ := (h.exclusive.locked_iff trivial).mp hlocked
        refine ⟨u, ?_, hu, ?_⟩
        · rintro rfl
          rw [Function.comp_apply, hpc] at hu
          exact Multiset.notMem_zero 0 hu
        · rw [Function.comp_apply] at hu
          unfold getRandom64
          cases hpcu : s.pc u with
          | locked i | computed i result | stored i result => rfl
          | _ =>
              rw [hpcu] at hu
              exact absurd hu (Multiset.notMem_zero 0)
      · cases hnone
    all_goals cases hnone

/-- Five threads: four have the four slots, the fifth waits. -/
def fiveCalls : List (Fin 5) := [0, 0, 0, 0, 1, 1, 1, 2, 2, 2, 2, 3, 3, 3, 3, 3, 4, 4, 4, 4, 4]

theorem random_numbers_five : ∃ s, (start (Fin 5)).run fiveCalls = some s ∧ s.pc 4 = .waiting ∧
    s.slotDraws 0 = [orbit 0 1] ∧ ∃ u, u ≠ 4 ∧ 0 ∈ (s.pc u).held ∧ (s.getRandom64 u).isSome := by
  have hrun : ∃ s, (start (Fin 5)).run fiveCalls = some s := ⟨_, rfl⟩
  obtain ⟨s, hrun⟩ := hrun
  obtain ⟨hdraws, -, -, -, -, -, hwaits⟩ := random_numbers hrun
  have hs := hrun
  obtain rfl := Option.some.inj hs
  exact ⟨_, hrun, rfl, hdraws 0, hwaits 4 rfl⟩

end RandomSlots

end StressAppTest.FineLock
