import StressAppTest.Workers.Loops

/-!
# The workers as a program

A control state of a worker is the rest of its script together with the offsets of the pages
it has in hand. `handContract` is the rule that only pages in hand are put back; that the
script keeps it is a field of the control state (`Ctl.sound`), proved once for each loop
(`follows_body`). So the workers are a disciplined program (`workersDiscipline`).
-/

namespace StressAppTest

open Threads Work Contract

/-! ## Rules for the operations -/

section Rules

variable {S β : Type} {K : Contract Request Response World S} {Q : β → S → Prop}

theorem follows_act {f : Nat → World → World × β} {s : S}
    (h : ∀ n w, K.view s w → ∃ s', K.move s w (f n w).1 s' ∧ Q (f n w).2 s') :
    K.Follows Q (act f) s := h

theorem follows_ite {c : Prop} [Decidable c] {x y : Work β} {s : S} (hx : c → K.Follows Q x s)
    (hy : ¬ c → K.Follows Q y s) : K.Follows Q (if c then x else y) s := by
  split
  · next h => exact hx h
  · next h => exact hy h

end Rules

/-! ## Pages in hand -/

/-- The offsets in hand after the answer to a request. -/
def handAfter (H : Multiset Nat) : Request → Response → Multiset Nat
  | .get _ _, .entry (some pe) => pe.offset ::ₘ H
  | .put _ pe, .status true => H.erase pe.offset
  | _, _ => H

/-- Only pages in hand are put back. -/
def handContract : Contract Request Response World (Multiset Nat) where
  pre H r := ∀ kind pe, r = .put kind pe → pe.offset ∈ H
  post H r a H' := H' = handAfter H r a
  view _ _ := True
  move H _ _ H' := H' = H

section Hand

variable {β : Type} {Q : β → Multiset Nat → Prop} {H : Multiset Nat}

theorem hand_act {f : Nat → World → World × β} (h : ∀ n w, Q (f n w).2 H) :
    handContract.Follows Q (act f) H :=
  follows_act fun n w _ => ⟨H, rfl, h n w⟩

theorem hand_get {Q : Option PageEntry → Multiset Nat → Prop} {kind : PageKind} {tag : Word32}
    (hsome : ∀ pe, Q (some pe) (pe.offset ::ₘ H)) (hnone : Q none H) :
    handContract.Follows Q (get kind tag) H := by
  refine ⟨fun kind' pe h => absurd h (by simp), ?_⟩
  rintro ((_ | pe) | ok) _ rfl
  · exact hnone
  · exact hsome pe
  · exact hnone

theorem hand_put {Q : Bool → Multiset Nat → Prop} {kind : PageKind} {pe : PageEntry}
    (hmem : pe.offset ∈ H) (htrue : Q true (H.erase pe.offset)) (hfalse : Q false H) :
    handContract.Follows Q (put kind pe) H := by
  refine ⟨fun kind' pe' h => ?_, ?_⟩
  · cases h
    exact hmem
  · rintro (e | ok) _ rfl
    · exact hfalse
    · cases ok with
      | true => exact htrue
      | false => exact hfalse

namespace Sat

variable {sat : Sat}

theorem hand_getValid {Q : Option PageEntry → Multiset Nat → Prop} {tag : Word32}
    (hsome : ∀ pe, Q (some pe) (pe.offset ::ₘ H)) (hnone : Q none H) :
    handContract.Follows Q (sat.getValid tag) H := by
  refine follows_bind (hand_get (Q := onOption (fun pe H' => H' = pe.offset ::ₘ H) (· = H)) (fun _ => rfl) rfl) ?_
  rintro (_ | pe) H' rfl
  · exact hnone
  · exact hand_act fun n w => hsome _

theorem hand_getEmpty {Q : Option PageEntry → Multiset Nat → Prop} {tag : Word32}
    (hsome : ∀ pe, Q (some pe) (pe.offset ::ₘ H)) (hnone : Q none H) :
    handContract.Follows Q (sat.getEmpty tag) H := by
  refine follows_bind (hand_get (Q := onOption (fun pe H' => H' = pe.offset ::ₘ H) (· = H)) (fun _ => rfl) rfl) ?_
  rintro (_ | pe) H' rfl
  · exact hnone
  · exact hsome _

/-- Steps that ask nothing of the queue. -/
def Local (x : Work β) : Prop := ∀ H, handContract.Follows (fun _ H' => H' = H) x H

theorem local_act (f : Nat → World → World × β) : Local (act f) := fun _ => hand_act fun _ _ => rfl

theorem local_checkPageIf (b : Bool) (pe : PageEntry) : Local (sat.checkPageIf b pe) := by
  cases b with
  | true => exact local_act _
  | false => exact fun H => rfl

theorem hand_local {γ : Type} {Q : γ → Multiset Nat → Prop} {x : Work β} {f : β → Work γ}
    (hx : Local x) (hf : ∀ b, handContract.Follows Q (f b) H) :
    handContract.Follows Q (x >>= f) H := by
  refine follows_bind (hx H) ?_
  rintro b H' rfl
  exact hf b

theorem local_keepRunning (id : StatusId) : Local (keepRunning id) := by
  intro H
  refine hand_local (local_act _) fun ready => ?_
  cases ready with
  | true => exact hand_local (local_act _) fun _ => rfl
  | false => exact rfl

/-! ## The loops keep the discipline -/

/-- Whatever a pass leaves in hand, the next one may go on from it. -/
def HandEnds : Turn Job → Multiset Nat → Prop := Turn.Ends (fun _ _ => True) (fun _ _ => True)

theorem handEnds (o : Turn Job) (H : Multiset Nat) : HandEnds o H := by
  cases o <;> trivial

theorem hand_pure {o : Turn Job} : handContract.Follows HandEnds (pure o) H := handEnds o H

/-- What a get leaves in hand. -/
def Got (H : Multiset Nat) (r : Option PageEntry) (H' : Multiset Nat) : Prop :=
  match r with
  | none => H' = H
  | some pe => H' = pe.offset ::ₘ H

/-- A put after which nothing depends on what is in hand. -/
theorem hand_putLast {γ : Type} {Q : γ → Multiset Nat → Prop} {kind : PageKind} {pe : PageEntry}
    {f : Bool → Work γ} (hmem : pe.offset ∈ H) (hf : ∀ b H', handContract.Follows Q (f b) H') :
    handContract.Follows Q (put kind pe >>= f) H :=
  follows_bind (hand_put (Q := fun _ _ => True) hmem trivial trivial) fun b H' _ => hf b H'

theorem hand_putPage {empty : Bool} {pe : PageEntry} (hmem : pe.offset ∈ H) :
    handContract.Follows (fun _ _ => True) (putPage empty pe) H :=
  follows_ite (fun _ => hand_put hmem trivial trivial) fun _ => hand_put hmem trivial trivial

/-- The two puts at the end of a transfer. -/
theorem hand_putBoth {dst src e e' : PageEntry} {kind kind' : PageKind}
    {f : Bool → Bool → Work (Turn Job)} (he : e.offset = dst.offset) (he' : e'.offset = src.offset)
    (hf : ∀ b b' H', handContract.Follows HandEnds (f b b') H') :
    handContract.Follows HandEnds (put kind e >>= fun b => put kind' e' >>= f b)
      (dst.offset ::ₘ src.offset ::ₘ H) := by
  refine follows_bind (hand_put (Q := fun _ H' => src.offset ∈ H') ?_ ?_ ?_) fun b H' hsrc => ?_
  · simp [he]
  · simp [he]
  · simp
  · exact hand_putLast (he' ▸ hsrc) (hf b)

theorem hand_fillThreadWork (presetOnly : Bool) (left : Nat) :
    handContract.Follows HandEnds (sat.fillThreadWork presetOnly left) H := by
  refine hand_local (local_act _) fun ready => follows_ite (fun _ => hand_pure) fun _ => ?_
  refine follows_bind (hand_getEmpty (Q := Got H) (fun _ => rfl) rfl) ?_
  rintro (_ | pe) H' rfl
  · exact hand_pure
  · refine follows_bind (Q := fun r H' => r.1.offset = pe.offset ∧ H' = pe.offset ::ₘ H) ?_ ?_
    · refine hand_act fun n w => ⟨?_, rfl⟩
      dsimp only
      split
      · split <;> rfl
      · split <;> rfl
    · rintro filled H' ⟨hoff, rfl⟩
      refine follows_ite (fun _ => hand_pure) fun _ => hand_local ?_ fun _ => ?_
      · exact fun H => hand_local (local_act _) fun stop => local_checkPageIf _ _ H
      · refine hand_putLast (by simp [hoff]) fun put H' => ?_
        exact follows_ite (fun _ => hand_pure) fun _ => hand_pure

theorem hand_copyThreadWork (tag : Word32) :
    handContract.Follows HandEnds (sat.copyThreadWork tag) H := by
  refine hand_local (local_keepRunning _) fun ready => follows_ite (fun _ => hand_pure) fun _ => ?_
  refine follows_bind (hand_getValid (Q := Got H) (fun _ => rfl) rfl) ?_
  rintro (_ | src) H' rfl
  · exact hand_pure
  · refine follows_bind (hand_getEmpty (Q := Got (src.offset ::ₘ H)) (fun _ => rfl) rfl) ?_
    rintro (_ | dst) H' rfl
    · exact hand_putLast (by simp) fun _ _ => hand_pure
    · refine follows_bind (Q := fun r H' => r.offset = dst.offset ∧
        H' = dst.offset ::ₘ src.offset ::ₘ H) ?_ ?_
      · refine hand_act fun n w => ⟨?_, rfl⟩
        dsimp only
        split
        · split <;> rfl
        · split
          · split <;> rfl
          · rfl
      · rintro dst' H' ⟨hoff, rfl⟩
        refine hand_local (local_checkPageIf _ _) fun _ => hand_putBoth hoff rfl fun _ _ H' => ?_
        exact follows_ite (fun _ => hand_pure) fun _ => hand_pure

theorem hand_invertThreadWork : handContract.Follows HandEnds sat.invertThreadWork H := by
  refine hand_local (local_keepRunning _) fun ready => follows_ite (fun _ => hand_pure) fun _ => ?_
  refine follows_bind (hand_getValid (Q := Got H) (fun _ => rfl) rfl) ?_
  rintro (_ | src) H' rfl
  · exact hand_pure
  · have hinvert {pe : PageEntry} (invert : Mem → Nat → Option Mem) {f : PageEntry → Work (Turn Job)}
        (hf : ∀ pe', handContract.Follows HandEnds (f pe') (pe'.offset ::ₘ H)) :
        handContract.Follows HandEnds (invertPage invert pe >>= f) (pe.offset ::ₘ H) := by
      refine follows_bind (Q := fun r H' => H' = r.offset ::ₘ H) (hand_act fun n w => rfl) ?_
      rintro pe' H' rfl
      exact hf pe'
    refine hand_local (local_checkPageIf _ _) fun _ => ?_
    refine hinvert _ fun src₁ => hinvert _ fun src₂ => hinvert _ fun src₃ => hinvert _ fun src₄ => ?_
    refine hand_local (local_checkPageIf _ _) fun _ => hand_putLast (by simp) fun _ _ => ?_
    exact follows_ite (fun _ => hand_pure) fun _ => hand_pure

theorem hand_checkThreadWork (finalCheck : Bool) :
    handContract.Follows HandEnds (sat.checkThreadWork finalCheck) H := by
  refine hand_local (local_act _) fun stop => follows_ite (fun _ => hand_pure) fun _ => ?_
  refine hand_local (local_act _) fun ready => follows_ite (fun _ => hand_pure) fun _ => ?_
  refine follows_bind (hand_getValid (Q := Got H) (fun _ => rfl) rfl) ?_
  rintro (_ | pe) H' rfl
  · exact hand_local (local_act _) fun _ => hand_pure
  · refine hand_local (local_act _) fun _ => hand_local (local_act _) fun _ =>
      hand_local (local_act _) fun _ => ?_
    refine follows_bind (hand_putPage (by simp)) fun put H' _ => ?_
    exact follows_ite (fun _ => hand_pure) fun _ => hand_pure

theorem hand_writePages (F : FileThread) (pass n i : Nat) (recs : List PageRec) :
    handContract.Follows (fun _ _ => True) (sat.writePages F pass n i recs) H := by
  induction n generalizing i recs H with
  | zero => exact hand_act fun _ _ => trivial
  | succ n ih =>
      refine follows_bind (hand_getValid (Q := Got H) (fun _ => rfl) rfl) ?_
      rintro (_ | src) H' rfl
      · exact trivial
      · refine hand_local (local_checkPageIf _ _) fun _ => hand_local (local_act _) fun _ =>
          hand_local (local_act _) fun written => hand_putLast (by simp) fun put H' => ?_
        exact follows_ite (fun _ => ih (i + 1) _) fun _ => trivial

theorem hand_readPages (F : FileThread) (pass i : Nat) (recs : List PageRec) :
    handContract.Follows (fun _ _ => True) (sat.readPages F pass i recs) H := by
  induction recs generalizing i H with
  | nil => exact trivial
  | cons pattern recs ih =>
      refine follows_bind (hand_getEmpty (Q := Got H) (fun _ => rfl) rfl) ?_
      rintro (_ | dst) H' rfl
      · exact trivial
      · refine follows_bind (Q := fun r H' => H' = dst.offset ::ₘ H ∧
          ∀ pe, r = some pe → pe.offset = dst.offset) ?_ ?_
        · refine hand_act fun n w => ⟨rfl, fun pe hpe => ?_⟩
          dsimp only at hpe
          split at hpe
          · obtain rfl := Option.some.inj hpe
            rfl
          · cases hpe
        · rintro (_ | dst') H' ⟨rfl, hoff⟩
          · exact hand_putLast (by simp) fun _ _ => trivial
          · refine hand_local (local_act _) fun _ => hand_local (local_checkPageIf _ _) fun _ => ?_
            refine hand_putLast (by simp [hoff dst' rfl]) fun put H' => ?_
            refine follows_ite (fun _ => trivial) fun _ => ?_
            exact follows_bind (ih (i + 1)) fun rest H _ => trivial

theorem hand_fileThreadWork (F : FileThread) (pass : Nat) :
    handContract.Follows HandEnds (sat.fileThreadWork F pass) H := by
  refine hand_local (local_keepRunning _) fun ready => follows_ite (fun _ => hand_pure) fun _ => ?_
  refine follows_bind (hand_writePages F pass _ 0 []) ?_
  rintro (_ | recs) H' -
  · exact hand_pure
  · exact follows_bind (hand_readPages F pass 0 recs) fun read H _ =>
      follows_ite (fun _ => hand_pure) fun _ => hand_pure

theorem hand_returnPages {src dst e : PageEntry} (he : e.offset = dst.offset) :
    handContract.Follows HandEnds (returnPages src e) (dst.offset ::ₘ src.offset ::ₘ H) := by
  rw [Multiset.cons_swap]
  exact hand_putBoth rfl he fun _ _ _ => hand_pure

theorem hand_networkThreadWork (sock : Nat) :
    handContract.Follows HandEnds (sat.networkThreadWork sock) H := by
  refine hand_local (local_keepRunning _) fun ready => follows_ite (fun _ => hand_pure) fun _ => ?_
  refine follows_bind (hand_getValid (Q := Got H) (fun _ => rfl) rfl) ?_
  rintro (_ | src) H' rfl
  · exact hand_pure
  · refine follows_bind (hand_getEmpty (Q := Got (src.offset ::ₘ H)) (fun _ => rfl) rfl) ?_
    rintro (_ | dst) H' rfl
    · exact hand_putLast (by simp) fun _ _ => hand_pure
    · refine hand_local (local_checkPageIf _ _) fun _ => hand_local (local_act _) fun sent => ?_
      refine follows_ite (fun _ => hand_returnPages rfl) fun _ => ?_
      refine follows_bind (Q := fun r H' => H' = dst.offset ::ₘ src.offset ::ₘ H ∧
          ∀ pe, r = some pe → pe.offset = dst.offset) ?_ ?_
      · refine hand_act fun n w => ⟨rfl, fun pe hpe => ?_⟩
        dsimp only at hpe
        split at hpe
        · cases hpe
        · split at hpe
          · obtain rfl := Option.some.inj hpe
            rfl
          · cases hpe
      · rintro (_ | dst') H' ⟨rfl, hoff⟩
        · exact hand_returnPages rfl
        · refine hand_local (local_checkPageIf _ _) fun _ => ?_
          refine hand_putBoth (hoff dst' rfl) rfl fun _ _ _ => ?_
          exact follows_ite (fun _ => hand_pure) fun _ => hand_pure

theorem hand_splitWork (i : Nat) : handContract.Follows HandEnds (sat.splitWork i) H := by
  refine follows_ite (fun _ => hand_pure) fun _ => ?_
  refine follows_bind (hand_getValid (Q := Got H) (fun _ => rfl) rfl) ?_
  rintro (_ | pe) H' rfl
  · exact hand_pure
  · refine follows_bind (Q := fun r H' => H' = r.offset ::ₘ H) (hand_act fun n w => rfl) ?_
    rintro pe' H' rfl
    exact follows_bind (hand_putPage (by simp)) fun _ _ _ => hand_pure

/-- Every loop puts back only what it has in hand. -/
theorem hand_body (job : Job) : handContract.Follows HandEnds (sat.body job) H := by
  cases job with
  | fill presetOnly left => exact hand_fillThreadWork presetOnly left
  | copy tag => exact hand_copyThreadWork tag
  | invert => exact hand_invertThreadWork
  | check finalCheck => exact hand_checkThreadWork finalCheck
  | openFile F => exact hand_act fun _ _ => handEnds _ _
  | file F pass => exact hand_fileThreadWork F pass
  | connect sock =>
      exact hand_local (local_act _) fun stop =>
        follows_ite (fun _ => hand_pure) fun _ => hand_act fun _ _ => handEnds _ _
  | network sock => exact hand_networkThreadWork sock
  | split i => exact hand_splitWork i

end Sat

end Hand

/-! ## The program -/

/-- A control state of a worker: the rest of its script and the pages in hand. -/
structure Ctl where
  script : Work (Turn Job)
  hand : Multiset Nat
  sound : handContract.Follows Sat.HandEnds script hand

namespace Ctl

/-- A worker about to start its loop. -/
def start (job : Job) : Ctl := ⟨.ret (.again job), 0, trivial⟩

def call (k : Ctl) : Option Request :=
  match k.script with
  | .call r _ => some r
  | _ => none

def resume (k : Ctl) (a : Response) : Ctl :=
  match h : k.script with
  | .call r c => ⟨c a, handAfter k.hand r a, by
      have hs := k.sound
      rw [h] at hs
      exact hs.2 a _ rfl⟩
  | _ => k

/-- The next local step under choice `n`. -/
def next (sat : Sat) (n : Nat) (k : Ctl) (w : World) : Option (Ctl × World) :=
  match h : k.script with
  | .loc f c => some (⟨c n w, k.hand, by
      have hs := k.sound
      rw [h] at hs
      obtain ⟨H, rfl, hc⟩ := hs n w trivial
      exact hc⟩, f n w)
  | .ret (.again job) => some (⟨sat.body job, k.hand, Sat.hand_body job⟩, w)
  | _ => none

/-- The worker has ended with the given status. -/
def Ended (k : Ctl) (status : Bool) : Prop := k.script = .ret (.exit status)

/-- The worker has ended with a failure. -/
def hasFailed (k : Ctl) : Bool :=
  match k.script with
  | .ret (.exit false) => true
  | _ => false

theorem ended_of_hasFailed {k : Ctl} (h : k.hasFailed = true) : k.Ended false := by
  unfold hasFailed at h
  split at h
  · next heq => exact heq
  · cases h

end Ctl

/-- Workers with the given jobs, in worlds that start in `W` and that others may change by
`env`. -/
def workers {τ : Type} (sat : Sat) (jobs : τ → Job) (W : World → Prop) (env : World → World → Prop) :
    Program τ Ctl World where
  init ctl w := (∀ t, ctl t = Ctl.start (jobs t)) ∧ W w
  call := Ctl.call
  resume _ := Ctl.resume
  step _ k w k' w' := ∃ n, k.next sat n w = some (k', w')
  env := env

variable {τ : Type} {sat : Sat} {jobs : τ → Job} {W : World → Prop} {env : World → World → Prop}

theorem Ctl.call_eq_some {k : Ctl} {r : Request} (h : k.call = some r) :
    ∃ c, k.script = .call r c := by
  unfold Ctl.call at h
  split at h
  · next r' c heq =>
    obtain rfl := Option.some.inj h
    exact ⟨c, heq⟩
  · cases h

theorem Ctl.resume_of_call {k : Ctl} {r : Request} {c : Response → Work (Turn Job)} (a : Response)
    (h : k.script = .call r c) :
    (k.resume a).script = c a ∧ (k.resume a).hand = handAfter k.hand r a := by
  obtain ⟨script, hand, sound⟩ := k
  subst h
  exact ⟨rfl, rfl⟩

theorem Ctl.next_cases {k k' : Ctl} {n : Nat} {w w' : World} (h : k.next sat n w = some (k', w')) :
    (∃ f c, k.script = .loc f c ∧ w' = f n w ∧ k'.script = c n w ∧ k'.hand = k.hand) ∨
    (∃ job, k.script = .ret (.again job) ∧ w' = w ∧ k'.script = sat.body job ∧ k'.hand = k.hand) := by
  obtain ⟨script, hand, sound⟩ := k
  cases script with
  | call r c => cases h
  | loc f c =>
      obtain ⟨rfl, rfl⟩ := Prod.mk.inj (Option.some.inj h)
      exact .inl ⟨f, c, rfl, rfl, rfl, rfl⟩
  | ret o =>
      cases o with
      | exit b => cases h
      | again job =>
          obtain ⟨rfl, rfl⟩ := Prod.mk.inj (Option.some.inj h)
          exact .inr ⟨job, rfl, rfl, rfl, rfl⟩

theorem Ctl.isSome_next {k : Ctl} {n : Nat} {w : World} : (k.next sat n w).isSome ↔
    (∃ f c, k.script = .loc f c) ∨ ∃ job, k.script = .ret (.again job) := by
  obtain ⟨script, hand, sound⟩ := k
  cases script with
  | call r c => simp [Ctl.next]
  | loc f c => simp [Ctl.next]
  | ret o => cases o <;> simp [Ctl.next]

/-- The workers put back only what they have in hand. -/
def workersDiscipline : Discipline (workers sat jobs W env) where
  held := Ctl.hand
  init h t := by
    rw [h.1 t]
    rfl
  got {t k kind tag pe} h := by
    obtain ⟨c, hc⟩ := Ctl.call_eq_some h
    exact (Ctl.resume_of_call _ hc).2
  missed {t k kind tag} h := by
    obtain ⟨c, hc⟩ := Ctl.call_eq_some h
    exact (Ctl.resume_of_call _ hc).2
  owns {k kind pe} h := by
    obtain ⟨c, hc⟩ := Ctl.call_eq_some h
    have hs := k.sound
    rw [hc] at hs
    exact hs.1 kind pe rfl
  gave {t k kind pe} h := by
    obtain ⟨c, hc⟩ := Ctl.call_eq_some h
    exact (Ctl.resume_of_call _ hc).2
  kept {t k kind pe} h := by
    obtain ⟨c, hc⟩ := Ctl.call_eq_some h
    exact (Ctl.resume_of_call _ hc).2
  step {t k w k' w'} _ h := by
    obtain ⟨n, hn⟩ := h
    rcases Ctl.next_cases hn with ⟨f, c, -, -, -, hh⟩ | ⟨job, -, -, -, hh⟩
    · exact hh
    · exact hh

/-- The workers run their loops. -/
def workersRuns : Runs (workers sat jobs W env) sat.body where
  script := Ctl.script
  call {k r} h := by
    obtain ⟨c, hc⟩ := Ctl.call_eq_some h
    exact ⟨c, hc, fun t a => (Ctl.resume_of_call a hc).1⟩
  step {t k w k' w'} h := by
    obtain ⟨n, hn⟩ := h
    rcases Ctl.next_cases hn with ⟨f, c, h1, h2, h3, -⟩ | ⟨job, h1, h2, h3, -⟩
    · exact .inl ⟨f, c, n, h1, h2, h3⟩
    · exact .inr ⟨job, h1, h2, h3⟩

/-! ## A small run -/

/-- The world before any worker has run. -/
def World.blank : World :=
  ⟨fun _ => 0, fun _ _ => 0, fun _ => [], fun _ => false, false, 0, 0, 0, fun _ => 0, [], []⟩

/-- An entry with nothing but an offset and a pattern. -/
def PageEntry.plain (offset : Nat) (pattern : Option Pattern) : PageEntry :=
  ⟨offset, none, 0, pattern, kInvalidTag, 0, 0, 0, -1, none⟩

/-- The first pattern of the list. -/
def Pattern.first : Pattern :=
  (initializePattern walkingOnes (by decide) 32 false 1 0).1

end StressAppTest
