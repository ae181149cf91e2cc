import StressAppTest.PageQueue
import StressAppTest.FineLock.Search

/-!
# The queue under interleaving

Each call is cut into the steps that other threads can come between: the unlocked read of the
predicate, the unlocked read of the tag, the `trylock`, the recheck, the unlock or the
copy-out; for a put the copy-in, the erased pattern of `PutEmpty`, and the unlock. `Op` is the
program counter of one thread inside the queue and `microStep` the step it takes. Page locks
are plain booleans: who holds one is for proofs to say.

`microStep_alone`: a thread that runs without interruption computes
`getRandomWithPredicateTag`.
-/

namespace StressAppTest.FineLock

/-- The local variables of `GetRandomWithPredicateTag` at the top of pass `i`, or, inside the
pass, with `nextTry` already advanced. -/
structure Scan where
  kind : PageKind
  tag : Word32
  firstTry : Nat
  i : Nat
  nextTry : Nat

/-- `continue` -/
def Scan.next (c : Scan) : Scan := { c with i := c.i + 1 }

/-- Where a thread stands inside the queue. -/
inductive Op
  | idle
  | scan (c : Scan)
  | testTag (c : Scan) (index : Nat)
  | tryLock (c : Scan) (index : Nat)
  | recheck (c : Scan) (index : Nat)
  | giveUp (c : Scan) (index : Nat)
  | copyOut (c : Scan) (index : Nat)
  | copyIn (kind : PageKind) (pe : PageEntry) (index : Nat)
  | clear (pe : PageEntry) (index : Nat)
  | unlock (kind : PageKind) (pe : PageEntry) (index : Nat)
  | done (r : Request) (a : Response)

/-- The request a thread is working on. -/
def Op.request : Op → Option Request
  | .idle => none
  | .scan c | .testTag c _ | .tryLock c _ | .recheck c _ | .giveUp c _ | .copyOut c _ =>
    some (.get c.kind c.tag)
  | .copyIn kind pe _ | .unlock kind pe _ => some (.put kind pe)
  | .clear pe _ => some (.put .empty pe)
  | .done r _ => some r

theorem Op.eq_idle_of_request {o : Op} (h : o.request = none) : o = .idle := by
  cases o with
  | idle => rfl
  | _ => cases h

namespace FineLockPEQueue

/-- The entry into a call: the argument checks, and `first_try` from `GetRandom64()`. -/
def enter (Q : FineLockPEQueue) (random64 : Nat) (r : Request) : Op :=
  match r with
  | .get kind tag =>
    if Q.qSize = 0 then .done r (.entry none)
    else .scan ⟨kind, tag, random64 % Q.qSize, 0, 1⟩
  | .put kind pe =>
    if (kind == .valid && !PageKind.holds .valid pe) || Q.qSize == 0 then .done r (.status false)
    else if pe.offset / Q.pageSize < Q.qSize then .copyIn kind pe (pe.offset / Q.pageSize)
    else .done r (.status false)

/-- One step of a call. `none` stands for a discard loop that does not end, and for a thread
that is not in a call. -/
def microStep (Q : FineLockPEQueue) (s : Pages) : Op → Option (Pages × Op)
  | .scan c =>
    if c.i < Q.qSize then
      (Q.advance c.nextTry).map fun nextTry =>
        let index := Q.index c.firstTry c.nextTry
        let c := { c with nextTry := nextTry }
        if c.kind.holds (s.pages index) then
          (s, if c.tag = kDontCareTag then .tryLock c index else .testTag c index)
        else (s, .scan c.next)
    else some (s, .done (.get c.kind c.tag) (.entry none))
  | .testTag c index =>
    some (s, if tagMatches c.tag (s.pages index).tag then .tryLock c index else .scan c.next)
  | .tryLock c index =>
    some (if s.pagelocks index then (s, .scan c.next)
      else (s.setLock index true, .recheck c index))
  | .recheck c index =>
    some (s, if c.kind.holds (s.pages index) then .copyOut c index else .giveUp c index)
  | .giveUp c index => some (s.setLock index false, .scan c.next)
  | .copyOut c index =>
    some (s, .done (.get c.kind c.tag) (.entry (some (Q.copyOut c.kind c.i (s.pages index)))))
  | .copyIn kind pe index =>
    some (s.setEntry index pe, if kind = .empty then .clear pe index else .unlock kind pe index)
  | .clear pe index =>
    some (s.setEntry index (s.pages index).cleared, .unlock .empty pe index)
  | .unlock kind pe index =>
    some (s.setLock index false, .done (.put kind pe) (.status true))
  | .idle | .done _ _ => none

/-- The steps of a call, one case for each thing that can happen. -/
inductive MicroStep (Q : FineLockPEQueue) (s : Pages) : Op → Pages → Op → Prop
  | skip {c : Scan} {nextTry : Nat} (hlt : c.i < Q.qSize)
      (hadv : Q.advance c.nextTry = some nextTry)
      (hno : ¬ c.kind.holds (s.pages (Q.index c.firstTry c.nextTry)) = true) :
      MicroStep Q s (.scan c) s (.scan { c with i := c.i + 1, nextTry := nextTry })
  | look {c : Scan} {nextTry : Nat} (hlt : c.i < Q.qSize)
      (hadv : Q.advance c.nextTry = some nextTry) (htag : c.tag = kDontCareTag) :
      MicroStep Q s (.scan c) s
        (.tryLock { c with nextTry := nextTry } (Q.index c.firstTry c.nextTry))
  | lookTag {c : Scan} {nextTry : Nat} (hlt : c.i < Q.qSize)
      (hadv : Q.advance c.nextTry = some nextTry) :
      MicroStep Q s (.scan c) s
        (.testTag { c with nextTry := nextTry } (Q.index c.firstTry c.nextTry))
  | exhausted {c : Scan} (hge : ¬ c.i < Q.qSize) :
      MicroStep Q s (.scan c) s (.done (.get c.kind c.tag) (.entry none))
  | tagHit {c : Scan} {j : Nat} : MicroStep Q s (.testTag c j) s (.tryLock c j)
  | tagMiss {c : Scan} {j : Nat} (hno : ¬ tagMatches c.tag (s.pages j).tag = true) :
      MicroStep Q s (.testTag c j) s (.scan c.next)
  | busy {c : Scan} {j : Nat} (hl : s.pagelocks j = true) :
      MicroStep Q s (.tryLock c j) s (.scan c.next)
  | lock {c : Scan} {j : Nat} (hl : s.pagelocks j = false) :
      MicroStep Q s (.tryLock c j) (s.setLock j true) (.recheck c j)
  | confirm {c : Scan} {j : Nat} (hk : c.kind.holds (s.pages j) = true) :
      MicroStep Q s (.recheck c j) s (.copyOut c j)
  | refute {c : Scan} {j : Nat} (hk : c.kind.holds (s.pages j) = false) :
      MicroStep Q s (.recheck c j) s (.giveUp c j)
  | giveUp {c : Scan} {j : Nat} :
      MicroStep Q s (.giveUp c j) (s.setLock j false) (.scan c.next)
  | copyOut {c : Scan} {j : Nat} :
      MicroStep Q s (.copyOut c j) s
        (.done (.get c.kind c.tag) (.entry (some (Q.copyOut c.kind c.i (s.pages j)))))
  | copyInEmpty {pe : PageEntry} {j : Nat} :
      MicroStep Q s (.copyIn .empty pe j) (s.setEntry j pe) (.clear pe j)
  | copyInValid {pe : PageEntry} {j : Nat} :
      MicroStep Q s (.copyIn .valid pe j) (s.setEntry j pe) (.unlock .valid pe j)
  | clear {pe : PageEntry} {j : Nat} :
      MicroStep Q s (.clear pe j) (s.setEntry j (s.pages j).cleared) (.unlock .empty pe j)
  | unlock {kind : PageKind} {pe : PageEntry} {j : Nat} :
      MicroStep Q s (.unlock kind pe j) (s.setLock j false) (.done (.put kind pe) (.status true))

/-- `microStep` takes the steps of `MicroStep` only. -/
theorem microStep_cases {Q : FineLockPEQueue} {s s' : Pages} {o o' : Op}
    (hm : Q.microStep s o = some (s', o')) : MicroStep Q s o s' o' := by
  cases o with
  | scan c =>
      simp only [microStep] at hm
      split at hm
      · next hlt =>
        obtain ⟨nextTry, hadv, heq⟩ := Option.map_eq_some_iff.mp hm
        split at heq
        · obtain ⟨rfl, rfl⟩ := Prod.mk.inj heq
          split
          · next htag => exact .look hlt hadv htag
          · exact .lookTag hlt hadv
        · next hno =>
          obtain ⟨rfl, rfl⟩ := Prod.mk.inj heq
          exact .skip hlt hadv hno
      · next hge =>
        obtain ⟨rfl, rfl⟩ := Prod.mk.inj (Option.some.inj hm)
        exact .exhausted hge
  | testTag c j =>
      obtain ⟨rfl, rfl⟩ := Prod.mk.inj (Option.some.inj hm)
      split
      · exact .tagHit
      · next hno => exact .tagMiss hno
  | tryLock c j =>
      simp only [microStep, Option.some.injEq] at hm
      split at hm
      · next hl =>
        obtain ⟨rfl, rfl⟩ := Prod.mk.inj hm
        exact .busy hl
      · next hl =>
        obtain ⟨rfl, rfl⟩ := Prod.mk.inj hm
        exact .lock (by simpa using hl)
  | recheck c j =>
      obtain ⟨rfl, rfl⟩ := Prod.mk.inj (Option.some.inj hm)
      split
      · next hk => exact .confirm hk
      · next hk => exact .refute (by simpa using hk)
  | giveUp c j =>
      obtain ⟨rfl, rfl⟩ := Prod.mk.inj (Option.some.inj hm)
      exact .giveUp
  | copyOut c j =>
      obtain ⟨rfl, rfl⟩ := Prod.mk.inj (Option.some.inj hm)
      exact .copyOut
  | copyIn kind pe j =>
      obtain ⟨rfl, rfl⟩ := Prod.mk.inj (Option.some.inj hm)
      cases kind with
      | valid => exact .copyInValid
      | empty => exact .copyInEmpty
  | clear pe j =>
      obtain ⟨rfl, rfl⟩ := Prod.mk.inj (Option.some.inj hm)
      exact .clear
  | unlock kind pe j =>
      obtain ⟨rfl, rfl⟩ := Prod.mk.inj (Option.some.inj hm)
      exact .unlock
  | idle => exact absurd hm (by simp [microStep])
  | done r a => exact absurd hm (by simp [microStep])

/-- A step stays in its call. -/
theorem MicroStep.request_eq {Q : FineLockPEQueue} {s s' : Pages} {o o' : Op}
    (h : MicroStep Q s o s' o') : o'.request = o.request := by
  cases h <;> rfl

/-- The shared state: the arrays, and where each thread stands. -/
structure State (τ : Type) extends Pages where
  op : τ → Op

/-- The queue as a shared object, from the given arrays. `GetRandom64()` is any value. -/
@[reducible] def obj (Q : FineLockPEQueue) (τ : Type) [DecidableEq τ] (init : Pages → Prop) :
    Threads.Obj τ Request Response where
  State := State τ
  init s := init s.toPages ∧ ∀ t, s.op t = .idle
  call s t r s' := s.op t = .idle ∧ ∃ random64 < 2 ^ 64,
    s' = { s with op := Function.update s.op t (Q.enter random64 r) }
  step s t s' := ∃ p o, Q.microStep s.toPages (s.op t) = some (p, o) ∧
    s' = ⟨p, Function.update s.op t o⟩
  ret s t a s' := ∃ r, s.op t = .done r a ∧ s' = { s with op := Function.update s.op t .idle }

/-- Steps of one thread alone. -/
inductive Alone (Q : FineLockPEQueue) : Pages × Op → Pages × Op → Prop
  | refl (x : Pages × Op) : Alone Q x x
  | head {s : Pages} {o : Op} {x y : Pages × Op} (h : Q.microStep s o = some x)
      (ht : Alone Q x y) : Alone Q (s, o) y

/-- Undisturbed, the steps compute the search loop. -/
theorem microStep_alone {Q : FineLockPEQueue} {kind : PageKind} {tag : Word32} {firstTry n : Nat}
    {nextTry : Nat} (hn : n ≤ Q.qSize) {s s' : Pages} {r : Option PageEntry}
    (h : Q.searchLoop kind tag firstTry n nextTry s = some (r, s')) :
    Alone Q (s, .scan ⟨kind, tag, firstTry, Q.qSize - n, nextTry⟩)
      (s', .done (.get kind tag) (.entry r)) := by
  induction n generalizing nextTry with
  | zero =>
      obtain ⟨rfl, rfl⟩ : none = r ∧ s = s' := by simpa [searchLoop] using h
      exact .head (by simp [microStep]) (.refl _)
  | succ n ih =>
      have hlt : Q.qSize - (n + 1) < Q.qSize := by omega
      have hsucc : Q.qSize - (n + 1) + 1 = Q.qSize - n := by omega
      cases hadv : Q.advance nextTry with
      | none => simp [searchLoop, hadv] at h
      | some nextTry' =>
          simp only [searchLoop, hadv, Option.bind_eq_bind, Option.bind_some] at h
          let c : Scan := ⟨kind, tag, firstTry, Q.qSize - (n + 1), nextTry'⟩
          have hcont (h' : Q.searchLoop kind tag firstTry n nextTry' s = some (r, s')) :
              Alone Q (s, .scan c.next) (s', .done (.get kind tag) (.entry r)) := by
            simp only [c, Scan.next, hsucc]
            exact ih (by omega) h'
          by_cases hkind : kind.holds (s.pages (Q.index firstTry nextTry)) = true
          · by_cases htag : tagMatches tag (s.pages (Q.index firstTry nextTry)).tag = true
            · -- the pass gets as far as the lock
              have htry : Alone Q (s, .tryLock c (Q.index firstTry nextTry))
                  (s', .done (.get kind tag) (.entry r)) := by
                by_cases hlock : s.pagelocks (Q.index firstTry nextTry) = true
                · refine .head (x := (s, .scan c.next)) (by simp [microStep, hlock]) (hcont ?_)
                  simpa [hkind, htag, hlock] using h
                · simp only [hkind, htag, hlock, Pages.setLock, Bool.not_true, Bool.false_eq_true,
                    if_false, Option.pure_def, Option.some.injEq, Prod.mk.injEq] at h
                  obtain ⟨rfl, rfl⟩ := h
                  let j := Q.index firstTry nextTry
                  refine .head (x := (s.setLock j true, .recheck c j)) ?_ ?_
                  · simp [microStep, hlock, j]
                  · refine .head (x := (s.setLock j true, .copyOut c j)) ?_ (.head rfl (.refl _))
                    simp [microStep, Pages.setLock, c, hkind, j]
              by_cases hdc : tag = kDontCareTag
              · refine .head (x := (s, .tryLock c (Q.index firstTry nextTry))) ?_ htry
                simp [microStep, hlt, hadv, hkind, hdc, c]
              · refine .head (x := (s, .testTag c (Q.index firstTry nextTry))) ?_ ?_
                · simp [microStep, hlt, hadv, hkind, hdc, c]
                · exact .head (by simp [microStep, htag, c]) htry
            · have hdc : tag ≠ kDontCareTag := by
                rintro rfl
                exact htag (tagMatches_dontCare _)
              refine .head (x := (s, .testTag c (Q.index firstTry nextTry))) ?_ ?_
              · simp [microStep, hlt, hadv, hkind, hdc, c]
              · refine .head (x := (s, .scan c.next)) (by simp [microStep, htag, c]) (hcont ?_)
                simpa [hkind, htag] using h
          · refine .head (x := (s, .scan c.next)) (by simp [microStep, hlt, hadv, hkind, c]) (hcont ?_)
            simpa [hkind] using h

/-! ## Scheduled runs -/

/-- One scheduling decision: a thread enters a call with the value of `GetRandom64()`, takes
a step inside the queue, receives its answer, or takes a local step with some choice. -/
inductive Act (τ χ : Type)
  | call (t : τ) (random64 : Nat)
  | obj (t : τ)
  | ret (t : τ)
  | loc (t : τ) (x : χ)

/-- A whole request, with `n` steps inside the queue. -/
def callActs {τ : Type} (t : τ) (random64 n : Nat) : List (Act τ Nat) :=
  .call t random64 :: (List.replicate n (.obj t) ++ [.ret t])

/-- Local steps, all with choice 0. -/
def localActs {τ : Type} (t : τ) (n : Nat) : List (Act τ Nat) := List.replicate n (.loc t 0)

section Run

variable {τ κ ω χ : Type} [DecidableEq τ] (Q : FineLockPEQueue) (init : Pages → Prop)
  (C : Program τ κ ω) (locStep : τ → χ → κ → ω → Option (κ × ω))

/-- The state after one decision, if it can be taken. -/
def act (s : Threads.Sys (Q.obj τ init) κ ω) : Act τ χ → Option (Threads.Sys (Q.obj τ init) κ ω)
  | .call t random64 =>
    match s.obj.op t, C.call (s.ctl t) with
    | .idle, some r =>
      if random64 < 2 ^ 64 then
        some ⟨⟨s.obj.toPages, Function.update s.obj.op t (Q.enter random64 r)⟩, s.ctl, s.world⟩
      else none
    | _, _ => none
  | .obj t =>
    (Q.microStep s.obj.toPages (s.obj.op t)).map fun x =>
      ⟨⟨x.1, Function.update s.obj.op t x.2⟩, s.ctl, s.world⟩
  | .ret t =>
    match s.obj.op t with
    | .done _ a =>
      some ⟨⟨s.obj.toPages, Function.update s.obj.op t .idle⟩,
        Function.update s.ctl t (C.resume t (s.ctl t) a), s.world⟩
    | _ => none
  | .loc t x =>
    match C.call (s.ctl t) with
    | none => (locStep t x (s.ctl t) s.world).map fun y =>
        ⟨s.obj, Function.update s.ctl t y.1, y.2⟩
    | some _ => none

/-- A whole schedule. -/
def run (s : Threads.Sys (Q.obj τ init) κ ω) (acts : List (Act τ χ)) :
    Option (Threads.Sys (Q.obj τ init) κ ω) := acts.foldlM (Q.act init C locStep) s

variable {Q init C locStep}

theorem step_of_act
    (hlocal : ∀ t x k w k' w', locStep t x k w = some (k', w') → C.step t k w k' w')
    {s s' : Threads.Sys (Q.obj τ init) κ ω} {x : Act τ χ}
    (h : Q.act init C locStep s x = some s') : Threads.Step (Q.obj τ init) C s s' := by
  cases x with
  | call t random64 =>
      simp only [act] at h
      split at h
      · next hidle hcall =>
        split at h
        · next hlt =>
          obtain rfl := Option.some.inj h
          exact .call hcall ⟨hidle, random64, hlt, rfl⟩
        · exact absurd h (by simp)
      · exact absurd h (by simp)
  | obj t =>
      obtain ⟨x, hx, rfl⟩ := Option.map_eq_some_iff.mp h
      exact .obj ⟨x.1, x.2, hx, rfl⟩
  | ret t =>
      simp only [act] at h
      split at h
      · next r a hdone =>
        obtain rfl := Option.some.inj h
        exact .ret ⟨r, hdone, rfl⟩
      · exact absurd h (by simp)
  | loc t x =>
      simp only [act] at h
      split at h
      · next hnone =>
        obtain ⟨y, hy, rfl⟩ := Option.map_eq_some_iff.mp h
        exact .loc hnone (hlocal _ _ _ _ _ _ hy)
      · exact absurd h (by simp)

/-- A schedule that can be taken is a run. -/
theorem steps_of_run
    (hlocal : ∀ t x k w k' w', locStep t x k w = some (k', w') → C.step t k w k' w')
    {s s' : Threads.Sys (Q.obj τ init) κ ω} {acts : List (Act τ χ)}
    (h : Q.run init C locStep s acts = some s') :
    Relation.ReflTransGen (Threads.Step (Q.obj τ init) C) s s' := by
  induction acts generalizing s with
  | nil =>
      obtain rfl : s = s' := Option.some.inj h
      exact .refl
  | cons x acts ih =>
      simp only [run, List.foldlM_cons, Option.bind_eq_bind] at h
      obtain ⟨s₁, hx, hrest⟩ := Option.bind_eq_some_iff.mp h
      exact .head (step_of_act hlocal hx) (ih hrest)

end Run

end FineLockPEQueue

end StressAppTest.FineLock
