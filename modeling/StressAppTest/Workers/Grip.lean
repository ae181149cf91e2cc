import StressAppTest.PoolOwnership
import StressAppTest.Memory.Copy
import StressAppTest.Workers.Program

/-!
# What the workers know of their pages

A page in the pool keeps what its entry promises (`Sat.PageSound`): a valid page holds the words of
its pattern, and in tag mode an empty page holds its tags. A worker may do what it likes with a page
in hand, but it has to know that the promise holds again when it puts the page back.

`Grip` is what a worker has and what it knows: its pages, its file and its connection, and a set of
worlds that only they decide about (`stable`). `gripContract` is the rule of a worker, and
`Gripped.step` says that no step of workers that keep it breaks a promise or counts an error.
-/

namespace StressAppTest

open Threads Work Contract Ownership

/-! ## Promises -/

/-- What belongs to a worker: the pages in hand by index, its file and its connection. -/
structure Holding where
  hand : Multiset Nat
  file : Option Nat
  sock : Option Nat

namespace Sat

variable (sat : Sat)

/-- The word at address `a` is one of page `i`. -/
def OnPage (i a : Nat) : Prop := sat.pageBase i ≤ a ∧ a < sat.pageBase i + sat.pageWords

/-- What an entry promises of its page. Before the first fill (`blank`) empty pages have no tags. -/
def PageSound (blank : Bool) (mem : Mem) (i : Nat) : PageKind → Option Pattern → Prop
  | .valid, pattern => ∃ p, pattern = some p ∧ sat.Clean mem (sat.pageBase i) p sat.pageWords
  | .empty, _ => sat.tagMode = true → blank = false → Tagged mem (sat.pageBase i) sat.pageWords

/-- The two worlds are the same in what belongs to a worker. -/
structure Agree (h : Holding) (w w' : World) : Prop where
  mem : ∀ i ∈ h.hand, ∀ a, sat.OnPage i a → w'.mem a = w.mem a
  file : ∀ f, h.file = some f → w'.file f = w.file f
  sock : ∀ k, h.sock = some k → w'.socket k = w.socket k

/-- The two worlds are the same in what does not belong to a worker, and no error is counted. -/
structure Frame (h : Holding) (w w' : World) : Prop where
  mem : ∀ a, (∀ i ∈ h.hand, ¬sat.OnPage i a) → w'.mem a = w.mem a
  file : ∀ f, h.file ≠ some f → w'.file f = w.file f
  sock : ∀ k, h.sock ≠ some k → w'.socket k = w.socket k
  miscompares : w'.miscompares = w.miscompares

end Sat

/-- No page, file or connection belongs to both. -/
structure Holding.Apart (h h' : Holding) : Prop where
  hand : ∀ i ∈ h.hand, i ∉ h'.hand
  file : ∀ f, h.file = some f → h'.file ≠ some f
  sock : ∀ k, h.sock = some k → h'.sock ≠ some k

namespace Sat

variable {sat : Sat} {blank : Bool} {h h' : Holding} {w w' w'' : World} {mem mem' : Mem} {i : Nat}
  {kind : PageKind} {pattern : Option Pattern}

theorem onPage_add {k : Nat} (hk : k < sat.pageWords) : sat.OnPage i (sat.pageBase i + k) :=
  ⟨Nat.le_add_right _ _, Nat.add_lt_add_left hk _⟩

/-- No word is on two pages. -/
theorem OnPage.unique {j a : Nat} (hi : sat.OnPage i a) (hj : sat.OnPage j a) : i = j := by
  by_contra hne
  obtain ⟨hi₁, hi₂⟩ := hi
  obtain ⟨hj₁, hj₂⟩ := hj
  cases sat.pageBase_disjoint hne with
  | inl hle => omega
  | inr hle => omega

theorem PageSound.congr (hsound : sat.PageSound blank mem i kind pattern)
    (heq : ∀ a, sat.OnPage i a → mem' a = mem a) : sat.PageSound blank mem' i kind pattern := by
  cases kind with
  | valid =>
      obtain ⟨p, hp, hclean⟩ := hsound
      exact ⟨p, hp, hclean.congr fun k hk => heq _ (onPage_add hk)⟩
  | empty =>
      intro htag hblank k hk hmod
      rw [heq _ (onPage_add hk)]
      exact hsound htag hblank k hk hmod

theorem Agree.refl (h : Holding) (w : World) : sat.Agree h w w :=
  ⟨fun _ _ _ _ => rfl, fun _ _ => rfl, fun _ _ => rfl⟩

theorem Agree.trans (h₁ : sat.Agree h w w') (h₂ : sat.Agree h w' w'') : sat.Agree h w w'' where
  mem i hi a ha := (h₂.mem i hi a ha).trans (h₁.mem i hi a ha)
  file f hf := (h₂.file f hf).trans (h₁.file f hf)
  sock k hk := (h₂.sock k hk).trans (h₁.sock k hk)

/-- Fewer pages. -/
theorem Agree.mono {hand : Multiset Nat} (ha : sat.Agree h w w') (hle : hand ⊆ h.hand) :
    sat.Agree { h with hand := hand } w w' :=
  ⟨fun i hi => ha.mem i (hle hi), ha.file, ha.sock⟩

theorem Frame.refl (h : Holding) (w : World) : sat.Frame h w w :=
  ⟨fun _ _ => rfl, fun _ _ => rfl, fun _ _ => rfl, rfl⟩

/-- What one worker does is not seen by another. -/
theorem Frame.agree (hf : sat.Frame h w w') (hapart : h'.Apart h) : sat.Agree h' w w' where
  mem i hi a ha := hf.mem a fun _ hj hja => hapart.hand i hi (ha.unique hja ▸ hj)
  file f hfile := hf.file f (hapart.file f hfile)
  sock k hk := hf.sock k (hapart.sock k hk)

/-- A page that is not in hand keeps its promise. -/
theorem Frame.pageSound (hf : sat.Frame h w w') (hi : i ∉ h.hand)
    (hsound : sat.PageSound blank w.mem i kind pattern) : sat.PageSound blank w'.mem i kind pattern :=
  hsound.congr fun a ha => hf.mem a fun _ hj hja => hi (ha.unique hja ▸ hj)

theorem Agree.pageSound (ha : sat.Agree h w w') (hi : i ∈ h.hand)
    (hsound : sat.PageSound blank w.mem i kind pattern) : sat.PageSound blank w'.mem i kind pattern :=
  hsound.congr (ha.mem i hi)

end Sat

/-! ## Typestates -/

/-- What a worker has, and the worlds it may be in as far as it knows. -/
structure Grip (sat : Sat) where
  holding : Holding
  know : World → Prop
  stable : ∀ {w w'}, sat.Agree holding w w' → know w → know w'

namespace Grip

variable {sat : Sat}

/-- With a page just taken, which keeps its promise. -/
def gain (blank : Bool) (i : Nat) (kind : PageKind) (pattern : Option Pattern) (x : Grip sat) :
    Grip sat where
  holding := { x.holding with hand := i ::ₘ x.holding.hand }
  know w := x.know w ∧ sat.PageSound blank w.mem i kind pattern
  stable ha hw := ⟨x.stable (ha.mono (Multiset.subset_cons _ _)) hw.1,
    ha.pageSound (Multiset.mem_cons_self _ _) hw.2⟩

/-- With a page given back. -/
def drop (i : Nat) (x : Grip sat) : Grip sat where
  holding := { x.holding with hand := x.holding.hand.erase i }
  know w := ∃ w₀, x.know w₀ ∧ sat.Agree { x.holding with hand := x.holding.hand.erase i } w₀ w
  stable ha hw := by
    obtain ⟨w₀, hw₀, ha₀⟩ := hw
    exact ⟨w₀, hw₀, ha₀.trans ha⟩

/-- In a world that is known as far as it belongs to the worker. -/
def inWorld (x : Grip sat) (w : World) : Grip sat where
  holding := x.holding
  know w' := sat.Agree x.holding w w'
  stable ha hw := hw.trans ha

/-- Where a worker stands once the answer that is on its way has reached it. -/
def settled (blank : Bool) : PoolOp → Grip sat → Grip sat
  | .done (.get kind _) (.entry (some pe)), x => x.gain blank (pe.offset / sat.pageLength) kind pe.pattern
  | .done (.put _ pe) (.status true), x => x.drop (pe.offset / sat.pageLength)
  | _, x => x

@[simp] theorem settled_idle (blank : Bool) (x : Grip sat) : x.settled blank .idle = x := rfl

@[simp] theorem hand_settled (blank : Bool) (o : PoolOp) (x : Grip sat) :
    (x.settled blank o).holding.hand = o.inHand sat.pageLength x.holding.hand := by
  rcases o with _ | r | ⟨⟨kind, tag⟩ | ⟨kind, pe⟩, (_ | pe') | (_ | _)⟩ <;> rfl

@[simp] theorem file_settled (blank : Bool) (o : PoolOp) (x : Grip sat) :
    (x.settled blank o).holding.file = x.holding.file := by
  unfold settled
  split <;> rfl

@[simp] theorem sock_settled (blank : Bool) (o : PoolOp) (x : Grip sat) :
    (x.settled blank o).holding.sock = x.holding.sock := by
  unfold settled
  split <;> rfl

end Grip

/-- The rule of a worker: a page is put back when it keeps its promise. -/
def gripContract (sat : Sat) (blank : Bool) : Contract Request Response World (Grip sat) where
  pre x
    | .get _ _ => True
    | .put kind pe => ∃ i ∈ x.holding.hand, pe.offset = i * sat.pageLength ∧
        ∀ w, x.know w → sat.PageSound blank w.mem i kind pe.pattern
  post x r a x' := x' = x.settled blank (.done r a) ∧
    (PoolOp.done r a).Sound sat.pages sat.pageLength ∧ x'.holding.hand.Nodup ∧ ∃ w, x'.know w
  view x w := x.know w
  move x w w' x' := sat.Frame x.holding w w' ∧ x'.holding = x.holding ∧ x'.know w'

def gripHandling (sat : Sat) (blank : Bool) : Handling sat.pageLength (gripContract sat blank) where
  hand x := x.holding.hand
  owns {x kind pe} h := by
    obtain ⟨i, hi, hoff, -⟩ := h
    rwa [hoff, Nat.mul_div_cancel _ sat.pageLength_pos]
  got {x kind tag pe x'} _ h := by
    obtain ⟨rfl, -⟩ := h
    rfl
  missed {x kind tag x'} h := by
    obtain ⟨rfl, -⟩ := h
    rfl
  gave {x kind pe x'} _ h := by
    obtain ⟨rfl, -⟩ := h
    rfl
  kept {x kind pe x'} h := by
    obtain ⟨rfl, -⟩ := h
    rfl
  moved {x w w' x'} h := by rw [h.2.1]

/-! ## The invariant -/

/-- The main thread switches the stop flags. -/
def switches (w w' : World) : Prop := ∃ stop errorStop, w' = { w with stop := stop, errorStop := errorStop }

section Gripped

variable {τ : Type} [DecidableEq τ] {sat : Sat} {blank : Bool} {errors : Nat}
  {init : (Nat → Option Slot) → Prop}

/-- The pages in the pool keep their promises, the workers are in worlds they know of, and no two of
them share a file or a connection. -/
structure Gripped (blank : Bool) (errors : Nat)
    (s : Sys (poolObj sat.pages sat.pageLength τ init) (Grip sat) World) : Prop where
  held : PoolHeld (gripHandling sat blank) s
  slots : ∀ i kind pattern, s.obj.slot i = some (kind, pattern) →
    sat.PageSound blank s.world.mem i kind pattern
  known : ∀ t, ((s.ctl t).settled blank (s.obj.op t)).know s.world
  files : ∀ t t' f, (s.ctl t).holding.file = some f → (s.ctl t').holding.file = some f → t = t'
  socks : ∀ t t' k, (s.ctl t).holding.sock = some k → (s.ctl t').holding.sock = some k → t = t'
  miscompares : s.world.miscompares = errors

variable {s s' : Sys (poolObj sat.pages sat.pageLength τ init) (Grip sat) World}

theorem Gripped.apart (h : Gripped blank errors s) {t t' : τ} (ht : t ≠ t') :
    ((s.ctl t).settled blank (s.obj.op t)).holding.Apart
      ((s.ctl t').settled blank (s.obj.op t')).holding where
  hand i hi hi' := by
    rw [Grip.hand_settled] at hi hi'
    exact ht (h.held.exclusive.owner_unique hi hi')
  file f hf hf' := by
    rw [Grip.file_settled] at hf hf'
    exact ht (h.files t t' f hf hf')
  sock k hk hk' := by
    rw [Grip.sock_settled] at hk hk'
    exact ht (h.socks t t' k hk hk')

/-- A step of the pool. -/
theorem Gripped.poolStep (h : Gripped blank errors s) {t : τ} {o : PoolOp}
    {slot : Nat → Option Slot}
    (hheld : PoolHeld (gripHandling sat blank) (⟨⟨slot, Function.update s.obj.op t o⟩, s.ctl, s.world⟩ :
      Sys (poolObj sat.pages sat.pageLength τ init) (Grip sat) World))
    (hslots : ∀ i kind pattern, slot i = some (kind, pattern) → s.obj.slot i = some (kind, pattern) ∨
      sat.PageSound blank s.world.mem i kind pattern)
    (hknow : ((s.ctl t).settled blank o).know s.world) :
    Gripped blank errors (⟨⟨slot, Function.update s.obj.op t o⟩, s.ctl, s.world⟩ :
      Sys (poolObj sat.pages sat.pageLength τ init) (Grip sat) World) where
  held := hheld
  slots i kind pattern hi := (hslots i kind pattern hi).elim (h.slots i kind pattern) id
  known t' := by
    by_cases ht : t' = t
    · subst ht
      simpa using hknow
    · simpa [ht] using h.known t'
  files := h.files
  socks := h.socks
  miscompares := h.miscompares

/-- What does not change in the new state of one worker does not change in any. -/
theorem apply_update_same {β : Type} {c : τ → Grip sat} {t : τ} {x : Grip sat} {f : Grip sat → β}
    (hf : f x = f (c t)) (t' : τ) : f (Function.update c t x t') = f (c t') := by
  rw [Function.apply_update (fun _ => f), hf, Function.update_eq_self]

/-- A local step. -/
theorem Gripped.moved (h : Gripped blank errors s) {t : τ} {w : World} {x : Grip sat}
    (hidle : s.obj.op t = .idle) (hmove : (gripContract sat blank).move (s.ctl t) s.world w x)
    (hheld : PoolHeld (gripHandling sat blank) (⟨s.obj, Function.update s.ctl t x, w⟩ :
      Sys (poolObj sat.pages sat.pageLength τ init) (Grip sat) World)) :
    Gripped blank errors (⟨s.obj, Function.update s.ctl t x, w⟩ :
      Sys (poolObj sat.pages sat.pageLength τ init) (Grip sat) World) := by
  obtain ⟨hframe, hholding, hknow⟩ := hmove
  have hsettled : (s.ctl t).settled blank (s.obj.op t) = s.ctl t := by rw [hidle, Grip.settled_idle]
  have hsame := apply_update_same (f := Grip.holding) hholding
  refine ⟨hheld, fun i kind pattern hi => ?_, fun t' => ?_, fun t₁ t₂ f h₁ h₂ => ?_,
    fun t₁ t₂ k h₁ h₂ => ?_, hframe.miscompares.trans h.miscompares⟩
  · -- a page in the pool is not in hand
    refine hframe.pageSound (fun hmem => ?_) (h.slots i kind pattern hi)
    have hnone := h.held.slot_eq_none (t := t) (show i ∈ poolHand _ s t by rw [poolHand, hidle]; exact hmem)
    rw [hnone] at hi
    cases hi
  · by_cases ht : t' = t
    · subst ht
      dsimp only
      rw [Function.update_self, hidle]
      exact hknow
    · dsimp only
      rw [Function.update_of_ne ht]
      have hapart := h.apart ht
      rw [hsettled] at hapart
      exact ((s.ctl t').settled blank (s.obj.op t')).stable (hframe.agree hapart) (h.known t')
  · dsimp only at h₁ h₂
    rw [hsame] at h₁ h₂
    exact h.files t₁ t₂ f h₁ h₂
  · dsimp only at h₁ h₂
    rw [hsame] at h₁ h₂
    exact h.socks t₁ t₂ k h₁ h₂

/-- A request is accepted, or turned down at once. -/
theorem Gripped.called (h : Gripped blank errors s) {t : τ} {r : Request} {o : PoolOp}
    (hidle : s.obj.op t = .idle) (ho : o = .busy r ∨ ∃ a, Refused r a ∧ o = .done r a)
    (hheld : PoolHeld (gripHandling sat blank) (⟨{ s.obj with op := Function.update s.obj.op t o }, s.ctl, s.world⟩ :
      Sys (poolObj sat.pages sat.pageLength τ init) (Grip sat) World)) :
    Gripped blank errors (⟨{ s.obj with op := Function.update s.obj.op t o }, s.ctl, s.world⟩ :
      Sys (poolObj sat.pages sat.pageLength τ init) (Grip sat) World) := by
  have hknow := h.known t
  rw [hidle] at hknow
  refine h.poolStep hheld (fun i kind pattern hi => .inl hi) ?_
  rcases called_cases ho with rfl | ⟨kind, tag, -, rfl⟩ | ⟨pe, -, -, rfl⟩
  · exact hknow
  · exact hknow
  · exact hknow

/-- A page that is found keeps its promise, and so does one that is stored. -/
theorem Gripped.served (h : Gripped blank errors s) {t : τ} {o : PoolState τ}
    (ho : PoolStep sat.pages sat.pageLength s.obj t o)
    (hheld : PoolHeld (gripHandling sat blank) (⟨o, s.ctl, s.world⟩ :
      Sys (poolObj sat.pages sat.pageLength τ init) (Grip sat) World)) :
    Gripped blank errors (⟨o, s.ctl, s.world⟩ :
      Sys (poolObj sat.pages sat.pageLength τ init) (Grip sat) World) := by
  have hknow := h.known t
  cases ho with
  | @found kind tag i pe hop hslot hoff =>
      rw [hop] at hknow
      refine h.poolStep hheld (fun j kind' pattern hj => ?_) ⟨hknow, ?_⟩
      · exact .inl (slot_of_take hj)
      · rw [hoff, Nat.mul_div_cancel _ sat.pageLength_pos]
        exact h.slots i kind _ hslot
  | missed hop =>
      rw [hop] at hknow
      exact h.poolStep hheld (fun i kind pattern hi => .inl hi) hknow
  | @stored kind pe i pattern hop hi hoff hout hpattern =>
      rw [hop] at hknow
      obtain ⟨j, hj, hoff', hsound⟩ := h.held.asked t (.put kind pe) (by rw [hop]; rfl)
      obtain rfl := Nat.eq_of_mul_eq_mul_right sat.pageLength_pos (hoff.symm.trans hoff')
      refine h.poolStep hheld (fun k kind' pattern' hk => ?_) ⟨_, hknow, .refl _ _⟩
      rcases slot_of_give hk with ⟨rfl, hnew⟩ | hold
      · obtain ⟨rfl, rfl⟩ := Prod.mk.inj hnew
        right
        cases kind with
        | valid =>
            rw [hpattern rfl]
            exact hsound _ hknow
        | empty => exact hsound _ hknow
      · exact .inl hold

/-- The worker has the answer. -/
theorem Gripped.answered (h : Gripped blank errors s) {t : τ} {r : Request} {a : Response}
    (hdone : s.obj.op t = .done r a)
    (hheld : PoolHeld (gripHandling sat blank) (⟨{ s.obj with op := Function.update s.obj.op t .idle },
      Function.update s.ctl t ((s.ctl t).settled blank (.done r a)), s.world⟩ :
      Sys (poolObj sat.pages sat.pageLength τ init) (Grip sat) World)) :
    Gripped blank errors (⟨{ s.obj with op := Function.update s.obj.op t .idle },
      Function.update s.ctl t ((s.ctl t).settled blank (.done r a)), s.world⟩ :
      Sys (poolObj sat.pages sat.pageLength τ init) (Grip sat) World) := by
  have hfile := apply_update_same (c := s.ctl) (f := fun x => x.holding.file)
    (Grip.file_settled blank (.done r a) (s.ctl t))
  have hsock := apply_update_same (c := s.ctl) (f := fun x => x.holding.sock)
    (Grip.sock_settled blank (.done r a) (s.ctl t))
  refine ⟨hheld, h.slots, fun t' => ?_, fun t₁ t₂ f h₁ h₂ => ?_, fun t₁ t₂ k h₁ h₂ => ?_, h.miscompares⟩
  · have hknow := h.known t'
    by_cases ht : t' = t
    · subst ht
      rw [hdone] at hknow
      simpa using hknow
    · simpa [ht] using hknow
  · dsimp only at h₁ h₂
    rw [hfile] at h₁ h₂
    exact h.files t₁ t₂ f h₁ h₂
  · dsimp only at h₁ h₂
    rw [hsock] at h₁ h₂
    exact h.socks t₁ t₂ k h₁ h₂

/-- **Every step keeps the promises.** -/
theorem Gripped.step (h : Gripped blank errors s)
    (hs : (gripContract sat blank).Step poolPending switches s s') : Gripped blank errors s' := by
  have hheld := h.held.step sat.pageLength_pos hs
  cases hs with
  | @call t r _ hpre ho =>
      obtain ⟨hidle, o, rfl, ho⟩ := ho
      exact h.called hidle ho hheld
  | obj ho => exact h.served ho hheld
  | @ret t r a _ x hreq ho hpost =>
      obtain ⟨r', hdone, rfl⟩ := ho
      obtain rfl : r' = r := by simpa [poolPending, hdone, PoolOp.request] using hreq
      obtain ⟨rfl, -⟩ := hpost
      exact h.answered hdone hheld
  | loc hreq _ hmove => exact h.moved (PoolOp.eq_idle_of_request hreq) hmove hheld
  | env hw =>
      obtain ⟨stop, errorStop, rfl⟩ := hw
      have hagree (x : Holding) :
          sat.Agree x s.world { s.world with stop := stop, errorStop := errorStop } :=
        ⟨fun _ _ _ _ => rfl, fun _ _ => rfl, fun _ _ => rfl⟩
      exact ⟨hheld, h.slots, fun t => Grip.stable _ (hagree _) (h.known t), h.files, h.socks,
        h.miscompares⟩

end Gripped

end StressAppTest
