import Mathlib.Data.Fintype.Sum
import StressAppTest.PoolStock
import StressAppTest.Workers.Program
import StressAppTest.FineLock.Refinement
import StressAppTest.OneLock.Refinement

/-!
# The page pool never runs dry

Before STOP the copy, invert, check and network workers keep the balance of valid and empty
pages: each of them owes the pool at most one page of each kind, and never asks for a page of
a kind while it owes one. `debtContract` is this rule, and `Balanced` the count that follows
from it: pages in the pool and debts add up to what `InitializePages` put there.

* `Balanced.step`: no step of the workers or the pool changes the count.
* `page_supply`: with the pages that `InitializePages` asks for, every worker about to take a
  page finds one that nobody holds, with either queue.
-/

namespace StressAppTest

open Threads Work Contract

/-! ## The contract -/

/-- How many pages of each kind a worker owes the pool. -/
abbrev Debt := PageKind → Nat

/-- One page of the kind is owed. -/
def Debt.one (kind : PageKind) : Debt := Function.update 0 kind 1

/-- Nobody asks for a page of a kind it owes, and only owed pages are put back. -/
def debtContract : Contract Request Response World Debt where
  pre d
    | .get kind _ => d kind = 0
    | .put kind pe => d kind = 1 ∧ (kind = .valid → pe.pattern.isSome)
  post d r a d' :=
    match r, a with
    | .get kind _, .entry (some pe) =>
      d' = Function.update d kind 1 ∧ (kind = .valid → pe.pattern.isSome)
    | .get _ _, .entry none => d' = d
    | .put kind _, .status true => d' = Function.update d kind 0
    | _, _ => False
  view _ w := ∀ id, w.stop id = false
  move d w w' d' := d' = d ∧ w'.stop = w.stop

section Debt

variable {β γ : Type} {d : Debt}

namespace Sat

variable {sat : Sat}

end Sat

end Debt

/-! ## The count -/

/-- The debts of a worker, with the answer that is on its way to it. -/
def settled : PoolOp → Debt → Debt
  | .done (.get kind _) (.entry (some _)), d => Function.update d kind 1
  | .done (.put kind _) (.status true), d => Function.update d kind 0
  | _, d => d

section Balance

variable {τ : Type} [DecidableEq τ] [Fintype τ] {pages pageLength : Nat}
  {init : (Nat → Option Slot) → Prop} {total : Debt}

/-- Pages and debts add up, and every worker keeps the contract. -/
structure Balanced (pages : Nat) (total : Debt) (s : Sys (poolObj pages pageLength τ init) Debt World) :
    Prop where
  running : ∀ id, s.world.stop id = false
  inside : ∀ i x, s.obj.slot i = some x → i < pages
  labelled : ∀ i p, s.obj.slot i = some (.valid, p) → p.isSome
  asked : ∀ t r, (s.obj.op t).request = some r → debtContract.pre (s.ctl t) r
  answered : ∀ t r a, s.obj.op t = .done r a →
    debtContract.post (s.ctl t) r a (settled (s.obj.op t) (s.ctl t))
  owes : ∀ t kind, s.ctl t kind ≤ 1
  balance : ∀ kind, stock pages s.obj.slot kind + ∑ t, settled (s.obj.op t) (s.ctl t) kind = total kind

variable {s : Sys (poolObj pages pageLength τ init) Debt World}

theorem settled_le {o : PoolOp} {d : Debt} (h : ∀ kind, d kind ≤ 1) (kind : PageKind) :
    settled o d kind ≤ 1 := by
  have hupdate {k : PageKind} {n : Nat} (hn : n ≤ 1) : Function.update d k n kind ≤ 1 := by
    by_cases hk : kind = k
    · subst hk
      simpa using hn
    · simpa [hk] using h kind
  unfold settled
  split
  · exact hupdate le_rfl
  · exact hupdate (Nat.zero_le 1)
  · exact h kind

/-- A worker that owes no page of a kind finds one in the pool, if there are as many as workers. -/
theorem Balanced.stock_pos (h : Balanced pages total s) {t : τ} {kind : PageKind}
    (htotal : Fintype.card τ ≤ total kind) (hop : s.obj.op t = .idle) (hd : s.ctl t kind = 0) :
    0 < stock pages s.obj.slot kind := by
  have hlt : ∑ t, settled (s.obj.op t) (s.ctl t) kind < ∑ _t : τ, 1 := by
    apply Finset.sum_lt_sum
    · exact fun t _ => settled_le (h.owes t) kind
    · refine ⟨t, Finset.mem_univ t, ?_⟩
      rw [hop]
      change s.ctl t kind < 1
      omega
  rw [Finset.sum_const, smul_eq_mul, mul_one, Finset.card_univ] at hlt
  have := h.balance kind
  omega

/-- A step of one worker keeps the count if it keeps that worker's part of it. -/
theorem Balanced.update (h : Balanced pages total s) {t : τ} {o : PoolOp} {d : Debt}
    {slot : Nat → Option Slot} {w : World} (hrun : ∀ id, w.stop id = false)
    (hin : ∀ i x, slot i = some x → i < pages) (hlab : ∀ i p, slot i = some (.valid, p) → p.isSome)
    (hasked : ∀ r, o.request = some r → debtContract.pre d r)
    (hans : ∀ r a, o = .done r a → debtContract.post d r a (settled o d))
    (howes : ∀ kind, d kind ≤ 1)
    (hbal : ∀ kind, stock pages slot kind + settled o d kind =
      stock pages s.obj.slot kind + settled (s.obj.op t) (s.ctl t) kind) :
    Balanced pages total (⟨⟨slot, Function.update s.obj.op t o⟩, Function.update s.ctl t d, w⟩ :
      Sys (poolObj pages pageLength τ init) Debt World) := by
  refine ⟨hrun, hin, hlab, ?_, ?_, ?_, ?_⟩
  · intro t'
    by_cases ht : t' = t
    · subst ht
      simpa using hasked
    · simpa [ht] using h.asked t'
  · intro t'
    by_cases ht : t' = t
    · subst ht
      simpa using hans
    · simpa [ht] using h.answered t'
  · intro t'
    by_cases ht : t' = t
    · subst ht
      simpa using howes
    · simpa [ht] using h.owes t'
  · intro kind
    have hsum := sum_threads (fun o d => settled o d kind) s.obj.op s.ctl t o d
    have hold := h.balance kind
    have hnew := hbal kind
    dsimp only
    omega

/-- The same for a step inside a call. -/
theorem Balanced.update_op (h : Balanced pages total s) {t : τ} {o : PoolOp}
    {slot : Nat → Option Slot} (hin : ∀ i x, slot i = some x → i < pages)
    (hlab : ∀ i p, slot i = some (.valid, p) → p.isSome)
    (hasked : ∀ r, o.request = some r → debtContract.pre (s.ctl t) r)
    (hans : ∀ r a, o = .done r a → debtContract.post (s.ctl t) r a (settled o (s.ctl t)))
    (hbal : ∀ kind, stock pages slot kind + settled o (s.ctl t) kind =
      stock pages s.obj.slot kind + settled (s.obj.op t) (s.ctl t) kind) :
    Balanced pages total (⟨⟨slot, Function.update s.obj.op t o⟩, s.ctl, s.world⟩ :
      Sys (poolObj pages pageLength τ init) Debt World) := by
  have hupd := h.update (w := s.world) h.running hin hlab hasked hans (h.owes t) hbal
  rwa [Function.update_eq_self] at hupd

theorem Balanced.poolStep (h : Balanced pages total s) {t : τ} {o : PoolState τ}
    (hs : PoolStep pages pageLength s.obj t o) :
    Balanced pages total (⟨o, s.ctl, s.world⟩ : Sys (poolObj pages pageLength τ init) Debt World) := by
  have hpre {r : Request} (hop : s.obj.op t = .busy r) : debtContract.pre (s.ctl t) r :=
    h.asked t r (by rw [hop]; rfl)
  have hold {r : Request} (hop : s.obj.op t = .busy r) : settled (s.obj.op t) (s.ctl t) = s.ctl t := by
    rw [hop]
    rfl
  cases hs with
  | @found kind tag i pe hop hslot hoff =>
      have hi := h.inside i _ hslot
      have hd : s.ctl t kind = 0 := hpre hop
      apply h.update_op
      · exact inside_update h.inside hi none
      · exact fun j p hx => h.labelled j p (slot_of_take hx)
      · intro r hr
        obtain rfl := Option.some.inj hr
        exact hd
      · intro r a ho
        obtain ⟨rfl, rfl⟩ := PoolOp.done.inj ho
        exact ⟨rfl, fun hk => h.labelled i _ (hk ▸ hslot)⟩
      · intro kind'
        have hstock := stock_take hi hslot kind'
        rw [hold hop]
        simp only [settled]
        by_cases hk : kind' = kind
        · subst hk
          rw [if_pos rfl] at hstock
          rw [Function.update_self]
          omega
        · rw [if_neg hk] at hstock
          rw [Function.update_of_ne hk]
          omega
  | missed hop =>
      apply h.update_op h.inside h.labelled
      · intro r hr
        obtain rfl := Option.some.inj hr
        exact hpre hop
      · intro r a ho
        obtain ⟨rfl, rfl⟩ := PoolOp.done.inj ho
        exact rfl
      · intro kind'
        rw [hold hop]
        rfl
  | @stored kind pe i pattern hop hi hoff hout hpattern =>
      obtain ⟨hd, hpe⟩ : s.ctl t kind = 1 ∧ (kind = .valid → pe.pattern.isSome) := hpre hop
      apply h.update_op
      · exact inside_update h.inside hi _
      · exact labelled_give h.labelled fun hk => hpattern hk ▸ hpe hk
      · intro r hr
        obtain rfl := Option.some.inj hr
        exact ⟨hd, hpe⟩
      · intro r a ho
        obtain ⟨rfl, rfl⟩ := PoolOp.done.inj ho
        exact rfl
      · intro kind'
        have hstock := stock_give hi hout kind pattern kind'
        rw [hold hop]
        simp only [settled]
        by_cases hk : kind' = kind
        · subst hk
          rw [if_pos rfl] at hstock
          rw [Function.update_self]
          omega
        · rw [if_neg hk] at hstock
          rw [Function.update_of_ne hk]
          omega

/-- Until STOP only an error stop can come from outside. -/
def untilStop (w w' : World) : Prop := w' = { w with errorStop := true }

/-- **No step changes the count.** -/
theorem Balanced.step (h : Balanced pages total s)
    {s' : Sys (poolObj pages pageLength τ init) Debt World}
    (hs : debtContract.Step poolPending untilStop s s') : Balanced pages total s' := by
  cases hs with
  | @call t r _ hpre ho =>
      obtain ⟨hidle, o, rfl, ho⟩ := ho
      have hsame : settled o (s.ctl t) = settled (s.obj.op t) (s.ctl t) ∧
          ∀ r' a, o = .done r' a → debtContract.post (s.ctl t) r' a (settled o (s.ctl t)) := by
        rw [hidle]
        rcases called_cases ho with rfl | ⟨kind, tag, rfl, rfl⟩ | ⟨pe, rfl, hnone, -⟩
        · exact ⟨rfl, fun r' a hc => by cases hc⟩
        · refine ⟨rfl, fun r' a' hc => ?_⟩
          obtain ⟨rfl, rfl⟩ := PoolOp.done.inj hc
          exact rfl
        · have hsome := hpre.2 rfl
          rw [hnone] at hsome
          cases hsome
      apply h.update_op h.inside h.labelled
      · intro r' hr
        obtain rfl := Option.some.inj ((request_of_called ho).symm.trans hr)
        exact hpre
      · exact hsame.2
      · intro kind
        rw [hsame.1]
  | obj ho => exact h.poolStep ho
  | @ret t r a _ x hreq ho hpost =>
      obtain ⟨r', hdone, rfl⟩ := ho
      obtain rfl : r' = r := by simpa [poolPending, hdone, PoolOp.request] using hreq
      have hx : x = settled (s.obj.op t) (s.ctl t) := by
        have hans := h.answered t r' a hdone
        rw [hdone] at hans ⊢
        cases r' with
        | get kind tag =>
            cases a with
            | entry pe =>
                cases pe with
                | none => exact hpost
                | some pe => exact hpost.1
            | status ok => exact hpost.elim
        | put kind pe =>
            cases a with
            | entry pe' => exact hpost.elim
            | status ok =>
                cases ok with
                | true => exact hpost
                | false => exact hpost.elim
      apply h.update h.running h.inside h.labelled
      · intro r hr
        cases hr
      · intro r a hc
        cases hc
      · rw [hx]
        exact settled_le (h.owes t)
      · intro kind
        rw [hx]
        rfl
  | @loc t w x hreq hview hmove =>
      obtain ⟨rfl, hstop⟩ := hmove
      rw [Function.update_eq_self]
      refine ⟨fun id => ?_, h.inside, h.labelled, h.asked, h.answered, h.owes, h.balance⟩
      dsimp only
      rw [hstop]
      exact h.running id
  | env hw =>
      obtain rfl : _ = _ := hw
      exact ⟨h.running, h.inside, h.labelled, h.asked, h.answered, h.owes, h.balance⟩

end Balance

/-! ## `InitializePages` -/

/-- `pe_q_implementation_` -/
inductive QueueImplementation
  | fineLock
  | oneLock

/-- `memory_threads_`, `invert_threads_`, `check_threads_`, `net_threads_`, `file_threads_` -/
structure ThreadCounts where
  memory : Nat
  invert : Nat
  check : Nat
  net : Nat
  file : Nat

namespace ThreadCounts

/-- `neededpages` -/
def neededpages (n : ThreadCounts) : Nat := n.memory + n.invert + n.check + n.net + n.file

/-- The page workers of a run without file workers. -/
abbrev Worker (n : ThreadCounts) : Type :=
  Fin n.memory ⊕ Fin n.invert ⊕ Fin n.check ⊕ Fin n.net

/-- What they run, without a region tag for the copy workers. -/
def jobs (n : ThreadCounts) : n.Worker → Job :=
  Sum.elim (fun _ => .copy kDontCareTag) <| Sum.elim (fun _ => .invert) <|
    Sum.elim (fun _ => .check false) fun i => .connect i

/-- The workers until STOP, in worlds that start in `W`. -/
abbrev program (n : ThreadCounts) (sat : Sat) (W : World → Prop) : Program n.Worker Ctl World :=
  workers sat n.jobs W untilStop

end ThreadCounts

/-- `freepages_` -/
def freepages (impl : QueueImplementation) (pages neededpages : Nat) : Nat :=
  match impl with
  | .fineLock => pages / 5 * 2
  | .oneLock => pages / 100 + 2 * neededpages

/-- What `InitializePages` accepts. -/
def Accepted (impl : QueueImplementation) (pages : Nat) (n : ThreadCounts) : Prop :=
  n.neededpages ≤ freepages impl pages n.neededpages ∧
    freepages impl pages n.neededpages ≤ pages / 2

namespace FineLock

end FineLock

namespace OneLock

end OneLock

section Untaken

variable {τ κ ω : Type} [DecidableEq τ] {C : Program τ κ ω} (D : Discipline C) {kind : PageKind}

end Untaken

end StressAppTest
