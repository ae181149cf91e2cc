import StressAppTest.FineLock.Ownership
import StressAppTest.FineLock.Solo
import StressAppTest.OneLock.Refinement
import StressAppTest.Workers.Loops

/-!
# The split loop of `InitializePages`

The main thread gets each page once, finds the region of it and puts it back with the tag of the
region, as an empty page or as a valid one. What tells a page that it still has to get from one that
it has put back is the tag alone: it asks for valid pages with `kInvalidTag`.

* `FineLockPEQueue` compares the tags bit by bit, and `kInvalidTag` has the bits of five regions. A
  valid page of one of these can be taken again.
* `PageEntryQueue` is not told the tag. Its entries come out in any order but for the newest one.

`queue_split_iff` says exactly when each of them visits every page once, for all random numbers.
-/

namespace StressAppTest

open Threads Work

/-! ## Queues with one thread -/

/-- The calls of an implementation, each as a whole; a get has a random number below `randoms`.
`entries` are the entries with the kind of page they are stored as. -/
structure QueueCalls (σ : Type) where
  get : PageKind → Word32 → Nat → σ → Option (Option PageEntry × σ)
  put : PageKind → PageEntry → σ → Bool × σ
  randoms : Nat
  entries : σ → List (PageKind × PageEntry)

def FineLock.FineLockPEQueue.calls (Q : FineLock.FineLockPEQueue) : QueueCalls FineLock.Pages where
  get := Q.getRandomWithPredicateTag
  put := Q.put
  randoms := 2 ^ 64
  entries s := (List.range Q.qSize).map fun i => ((s.pages i).kind, s.pages i)

/-- `valid_` and `empty_`, which ignore the tag. -/
def OneLock.calls : QueueCalls (PageKind → OneLock.PageEntryQueue) where
  get kind _ random queue :=
    let r := (queue kind).popRandom random
    some (r.2, Function.update queue kind r.1)
  put kind pe queue :=
    let r := (queue kind).push pe
    (r.2, Function.update queue kind r.1)
  randoms := 2 ^ 31
  entries queue :=
    (queue .valid).toList.map (.valid, ·) ++ (queue .empty).toList.map (.empty, ·)

namespace QueueCalls

variable {σ β : Type}

/-- The script runs from one state to another and ends with the given result. The list has the
offsets of the pages it gets on the way. -/
inductive Runs (Q : QueueCalls σ) : σ → World → Work β → List Nat → σ → World → β → Prop
  | ret {p : σ} {w : World} {b : β} : Runs Q p w (.ret b) [] p w b
  | get {p p' p'' : σ} {w w' : World} {kind : PageKind} {tag : Word32} {r : Option PageEntry}
      {c : Response → Work β} {got : List Nat} {b : β} {random : Nat} (hrandom : random < Q.randoms)
      (hget : Q.get kind tag random p = some (r, p')) (h : Runs Q p' w (c (.entry r)) got p'' w' b) :
      Runs Q p w (.call (.get kind tag) c) ((r.map PageEntry.offset).toList ++ got) p'' w' b
  | put {p p' p'' : σ} {w w' : World} {kind : PageKind} {pe : PageEntry} {ok : Bool}
      {c : Response → Work β} {got : List Nat} {b : β} (hput : Q.put kind pe p = (ok, p'))
      (h : Runs Q p' w (c (.status ok)) got p'' w' b) : Runs Q p w (.call (.put kind pe) c) got p'' w' b
  | loc {p p'' : σ} {w w' : World} {next : Nat → World → World} {c : Nat → World → Work β}
      {got : List Nat} {b : β} (n : Nat) (h : Runs Q p (next n w) (c n w) got p'' w' b) :
      Runs Q p w (.loc next c) got p'' w' b

/-- The loop from pass `i` on, when it succeeds. -/
inductive Split (Q : QueueCalls σ) (sat : Sat) : Nat → σ → World → List Nat → σ → World → Prop
  | done {i : Nat} {p p' : σ} {w w' : World} {got : List Nat}
      (h : Q.Runs p w (sat.splitWork i) got p' w' (.exit true)) : Split Q sat i p w got p' w'
  | again {i : Nat} {p p' p'' : σ} {w w' w'' : World} {got got' : List Nat}
      (h : Q.Runs p w (sat.splitWork i) got p' w' (.again (.split (i + 1))))
      (hrest : Split Q sat (i + 1) p' w' got' p'' w'') : Split Q sat i p w (got ++ got') p'' w''

end QueueCalls

/-! ## What is to be visited -/

namespace Sat

variable (sat : Sat)

/-- The offsets of the pages. -/
def offsets : List Nat := (List.range sat.pages).map (· * sat.pageLength)

/-- The region of the page at an offset. -/
def regionOf (offset : Nat) : Nat := sat.findRegion (sat.virtualToPhysical (sat.prepareTestMem offset))

/-- The entry that a pass puts back for the one it got. -/
def visited (empty : Bool) (ts : Nat) (pe : PageEntry) : PageEntry :=
  { pe with
    addr := none
    ts := ts
    lastpattern := pe.pattern
    paddr := sat.virtualToPhysical (sat.prepareTestMem pe.offset)
    tag := BitVec.ofNat 32 (2 ^ sat.regionOf pe.offset)
    writeDramFrequency := if empty then -1 else pe.writeDramFrequency }

/-- The address and the tag are those of the region. -/
structure HasRegion (pe : PageEntry) : Prop where
  paddr : pe.paddr = sat.virtualToPhysical (sat.prepareTestMem pe.offset)
  tag : pe.tag = BitVec.ofNat 32 (2 ^ sat.findRegion pe.paddr)

/-- All pages are valid and none has a region. -/
structure Untagged (entries : List (PageKind × PageEntry)) : Prop where
  pages : (entries.map fun x => x.2.offset).Perm sat.offsets
  valid : ∀ x ∈ entries, x.1 = .valid ∧ x.2.pattern.isSome
  untagged : ∀ x ∈ entries, x.2.tag = kInvalidTag

/-- Each page was got once. -/
structure AllVisited (got : List Nat) (entries : List (PageKind × PageEntry)) (region : Nat → Nat) :
    Prop where
  once : got.Perm sat.offsets
  pages : (entries.map fun x => x.2.offset).Perm sat.offsets
  tagged : ∀ x ∈ entries, sat.HasRegion x.2
  region : ∀ r, region r = sat.offsets.countP fun o => sat.regionOf o = r
  empty : entries.countP (fun x => x.1 = .empty) = sat.freepages

end Sat

/-! ## One pass -/

/-- The kind of page that is put back. -/
def visitedKind (empty : Bool) : PageKind := if empty then .empty else .valid

/-- The count of the region of a page. -/
def Sat.countRegion (sat : Sat) (offset : Nat) (w : World) : World :=
  { w with
    region := Function.update w.region (sat.regionOf offset) (w.region (sat.regionOf offset) + 1) }

/-- The script of a pass that gets a page, call by call. -/
theorem splitWork_eq {sat : Sat} {i : Nat} (hi : i < sat.pages) : sat.splitWork i =
    .call (.get .valid kInvalidTag) fun
      | .entry (some pe) =>
        .loc (fun _ w => w) fun ts _ =>
          .loc (fun _ w => sat.countRegion pe.offset w) fun _ _ =>
            .call (.put (visitedKind (i < sat.freepages)) (sat.visited (i < sat.freepages) ts pe))
              fun _ => .ret (.again (.split (i + 1)))
      | _ => .ret (.exit false) := by
  rw [Sat.splitWork, if_neg (by omega)]
  refine congrArg (Script.call _) (funext fun r => ?_)
  cases r with
  | status ok => rfl
  | entry found =>
      cases found with
      | none => rfl
      | some pe =>
          refine congrArg (Script.loc _) (funext fun ts => funext fun w => ?_)
          refine congrArg (Script.loc _) (funext fun n => funext fun w' => ?_)
          by_cases hfree : i < sat.freepages
          · simp only [hfree, decide_true]
            exact congrArg (Script.call _) (funext fun a => by cases a <;> rfl)
          · simp only [hfree, decide_false]
            exact congrArg (Script.call _) (funext fun a => by cases a <;> rfl)

section Pass

variable {σ : Type} {Q : QueueCalls σ} {sat : Sat} {i : Nat} {p p' : σ} {w w' : World}
  {got : List Nat}

/-- What a pass does that goes on. -/
theorem QueueCalls.Runs.again (h : Q.Runs p w (sat.splitWork i) got p' w' (.again (.split (i + 1)))) :
    i < sat.pages ∧ ∃ random < Q.randoms, ∃ pe p₁ ts,
      Q.get .valid kInvalidTag random p = some (some pe, p₁) ∧ got = [pe.offset] ∧
      p' = (Q.put (visitedKind (i < sat.freepages)) (sat.visited (i < sat.freepages) ts pe) p₁).2 ∧
      w' = sat.countRegion pe.offset w := by
  by_cases hi : sat.pages ≤ i
  · rw [Sat.splitWork, if_pos hi] at h
    cases h
  refine ⟨by omega, ?_⟩
  rw [splitWork_eq (by omega)] at h
  cases h with
  | @get _ p₁ _ _ _ _ _ r _ got' _ random hrandom hget h =>
      cases r with
      | none => cases h
      | some pe =>
          cases h with
          | loc ts h =>
              cases h with
              | loc n h =>
                  cases h with
                  | put hput h =>
                      cases h
                      exact ⟨random, hrandom, pe, p₁, ts, hget, rfl, by rw [hput], rfl⟩

/-- A page that is got can be put back. -/
theorem QueueCalls.runs_pass (hi : i < sat.pages) {random : Nat} (hrandom : random < Q.randoms)
    {pe : PageEntry} {p₁ : σ} (ts : Nat) (hget : Q.get .valid kInvalidTag random p = some (some pe, p₁))
    (w : World) :
    Q.Runs p w (sat.splitWork i) [pe.offset]
      (Q.put (visitedKind (i < sat.freepages)) (sat.visited (i < sat.freepages) ts pe) p₁).2
      (sat.countRegion pe.offset w) (.again (.split (i + 1))) := by
  rw [splitWork_eq hi]
  exact .get hrandom hget (.loc ts (.loc 0 (.put rfl .ret)))

/-- The loop succeeds when there are no passes left. -/
theorem QueueCalls.Runs.exit (h : Q.Runs p w (sat.splitWork i) got p' w' (.exit true)) :
    sat.pages ≤ i ∧ got = [] ∧ p' = p ∧ w' = w := by
  by_cases hi : sat.pages ≤ i
  · rw [Sat.splitWork, if_pos hi] at h
    cases h
    exact ⟨hi, rfl, rfl, rfl⟩
  · rw [splitWork_eq (by omega)] at h
    cases h with
    | @get _ p₁ _ _ _ _ _ r _ got' _ random hrandom hget h =>
        cases r with
        | none => cases h
        | some pe =>
            cases h with
            | loc ts h =>
                cases h with
                | loc n h =>
                    cases h with
                    | put hput h => cases h

end Pass

/-! ## The invariant -/

/-- The state before pass `i`: `fresh` are the entries that are still to be got, `done` those that were
put back. -/
structure SplitInv (sat : Sat) (i : Nat) (got : List Nat) (entries : List (PageKind × PageEntry))
    (region : Nat → Nat) (fresh : List PageEntry) (done : List (PageKind × PageEntry)) : Prop where
  pages : (entries.map fun x => x.2.offset).Perm sat.offsets
  entries : entries.Perm (fresh.map (PageKind.valid, ·) ++ done)
  untagged : ∀ pe ∈ fresh, pe.tag = kInvalidTag
  tagged : ∀ x ∈ done, sat.HasRegion x.2
  once : got.Perm (done.map fun x => x.2.offset)
  count : got.length = i
  empty : done.countP (fun x => x.1 = .empty) = min i sat.freepages
  region : ∀ r, region r = got.countP fun o => sat.regionOf o = r

/-- A pass replaces the entry `e` of a valid page by `x`. -/
structure Exchange (sat : Sat) (i : Nat) (entries entries' : List (PageKind × PageEntry))
    (e x : PageEntry) (rest : List (PageKind × PageEntry)) : Prop where
  old : entries.Perm ((.valid, e) :: rest)
  new : entries'.Perm ((visitedKind (i < sat.freepages), x) :: rest)
  offset : x.offset = e.offset
  region : sat.HasRegion x

/-- No tag of a region is the invalid one. -/
theorem regionTag_ne {r : Nat} (hr : r < 32) : BitVec.ofNat 32 (2 ^ r) ≠ kInvalidTag := by
  have hall : ∀ r < 32, BitVec.ofNat 32 (2 ^ r) ≠ kInvalidTag := by decide
  exact hall r hr

section Invariant

variable {sat : Sat} {i : Nat} {got : List Nat} {entries entries' : List (PageKind × PageEntry)}
  {region : Nat → Nat} {fresh : List PageEntry} {done : List (PageKind × PageEntry)}

theorem Sat.HasRegion.tag_ne {pe : PageEntry} (h : sat.HasRegion pe) : pe.tag ≠ kInvalidTag := by
  rw [h.tag]
  exact regionTag_ne (sat.findRegion_lt _)

theorem Sat.hasRegion_visited (empty : Bool) (ts : Nat) (pe : PageEntry) :
    sat.HasRegion (sat.visited empty ts pe) := ⟨rfl, rfl⟩

theorem SplitInv.start (h : sat.Untagged entries) :
    SplitInv sat 0 [] entries (fun _ => 0) (entries.map Prod.snd) [] where
  pages := h.pages
  entries := by
    have hvalid : (entries.map Prod.snd).map (PageKind.valid, ·) = entries := by
      rw [List.map_map]
      refine (List.map_congr_left fun x hx => ?_).trans (List.map_id entries)
      rw [Function.comp_apply, ← (h.valid x hx).1]
      rfl
    rw [hvalid, List.append_nil]
  untagged pe hpe := by
    obtain ⟨x, hx, rfl⟩ := List.mem_map.mp hpe
    exact h.untagged x hx
  tagged _ hx := by cases hx
  once := .refl _
  count := rfl
  empty := (Nat.zero_min _).symm
  region _ := rfl

/-- A pass over a page without a region keeps the invariant. -/
theorem SplitInv.exchange (h : SplitInv sat i got entries region fresh done) {e x : PageEntry}
    {rest : List (PageKind × PageEntry)} (hex : Exchange sat i entries entries' e x rest)
    (htag : e.tag = kInvalidTag) : ∃ fresh' done', SplitInv sat (i + 1) (got ++ [e.offset]) entries'
      (Function.update region (sat.regionOf e.offset) (region (sat.regionOf e.offset) + 1))
      fresh' done' := by
  have hmem : (PageKind.valid, e) ∈ fresh.map (PageKind.valid, ·) ++ done :=
    h.entries.mem_iff.mp (hex.old.mem_iff.mpr List.mem_cons_self)
  obtain hfresh | hdone := List.mem_append.mp hmem
  swap
  · exact absurd htag (h.tagged _ hdone).tag_ne
  obtain ⟨pe, hpe, heq⟩ := List.mem_map.mp hfresh
  obtain rfl : pe = e := (Prod.mk.inj heq).2
  obtain ⟨before, after, rfl⟩ := List.append_of_mem hpe
  have hmiddle : ((before ++ pe :: after).map (PageKind.valid, ·) ++ done).Perm
      ((.valid, pe) :: ((before ++ after).map (PageKind.valid, ·) ++ done)) := by
    rw [List.map_append, List.map_cons, List.map_append, List.append_assoc, List.append_assoc]
    exact List.perm_middle
  have hrest : rest.Perm ((before ++ after).map (PageKind.valid, ·) ++ done) :=
    (hex.old.symm.trans (h.entries.trans hmiddle)).cons_inv
  refine ⟨before ++ after, (visitedKind (i < sat.freepages), x) :: done, ?_⟩
  exact
    { pages := by
        have hold := (hex.old.map fun x => x.2.offset).symm.trans h.pages
        have hnew := hex.new.map fun x => x.2.offset
        rw [List.map_cons] at hold hnew
        rw [hex.offset] at hnew
        exact hnew.trans hold
      entries := hex.new.trans ((hrest.cons _).trans List.perm_middle.symm)
      untagged := fun pe' hpe' => by
        refine h.untagged pe' ?_
        rw [List.mem_append] at hpe' ⊢
        exact hpe'.imp_right (List.mem_cons_of_mem pe)
      tagged := List.forall_mem_cons.mpr ⟨hex.region, h.tagged⟩
      once := by
        rw [List.map_cons, hex.offset]
        exact (List.perm_append_singleton _ _).trans (h.once.cons _)
      count := by rw [List.length_append, h.count, List.length_singleton]
      empty := by
        rw [List.countP_cons, h.empty, visitedKind]
        by_cases hfree : i < sat.freepages
        · simp [hfree]
          omega
        · simp [hfree]
          omega
      region := fun r => by
        rw [List.countP_append, ← h.region r]
        by_cases hr : r = sat.regionOf pe.offset
        · subst hr
          simp
        · rw [Function.update_of_ne hr]
          simp [Ne.symm hr] }

/-- At the end every page was got once. -/
theorem SplitInv.allVisited (h : SplitInv sat sat.pages got entries region fresh done)
    (hfree : sat.freepages ≤ sat.pages) : sat.AllVisited got entries region := by
  have hdone : done.length = sat.pages := by
    rw [← h.count, h.once.length_eq, List.length_map]
  have hentries : entries.length = sat.pages := by
    have hlen := h.pages.length_eq
    rwa [List.length_map, Sat.offsets, List.length_map, List.length_range] at hlen
  have hnil : fresh = [] := by
    have hlen := h.entries.length_eq
    rw [List.length_append, List.length_map] at hlen
    exact List.length_eq_zero_iff.mp (by omega)
  have hperm := h.entries
  rw [hnil, List.map_nil, List.nil_append] at hperm
  have honce := h.once.trans ((hperm.map fun x => x.2.offset).symm.trans h.pages)
  exact
    { once := honce
      pages := h.pages
      tagged := fun x hx => h.tagged x (hperm.mem_iff.mp hx)
      region := fun r => by rw [h.region r, honce.countP_eq]
      empty := by rw [hperm.countP_eq, h.empty, Nat.min_eq_right hfree] }

end Invariant

/-! ## Whole runs -/

section Whole

variable {σ : Type} {Q : QueueCalls σ} {sat : Sat}

/-- **The run lemma.** If every pass gets a page without a region, all pages are visited. -/
theorem QueueCalls.Split.inv {I : Nat → σ → Prop}
    (hpass : ∀ {i p got region fresh done random pe p₁} (ts : Nat), i < sat.pages → I i p →
      SplitInv sat i got (Q.entries p) region fresh done →
      Q.get .valid kInvalidTag random p = some (some pe, p₁) →
      let p' := (Q.put (visitedKind (i < sat.freepages)) (sat.visited (i < sat.freepages) ts pe) p₁).2
      I (i + 1) p' ∧ ∃ e x rest, Exchange sat i (Q.entries p) (Q.entries p') e x rest ∧
        e.tag = kInvalidTag ∧ pe.offset = e.offset)
    {i : Nat} {p p' : σ} {w w' : World} {got got' : List Nat} {fresh : List PageEntry}
    {done : List (PageKind × PageEntry)} (h : Q.Split sat i p w got' p' w') (hi : i ≤ sat.pages)
    (hI : I i p) (hinv : SplitInv sat i got (Q.entries p) w.region fresh done) :
    ∃ fresh' done', SplitInv sat sat.pages (got ++ got') (Q.entries p') w'.region fresh' done' := by
  induction h generalizing got fresh done with
  | done h =>
      obtain ⟨hge, rfl, rfl, rfl⟩ := h.exit
      obtain rfl := Nat.le_antisymm hi hge
      rw [List.append_nil]
      exact ⟨fresh, done, hinv⟩
  | again h hrest ih =>
      obtain ⟨hlt, random, -, pe, p₁, ts, hget, rfl, rfl, rfl⟩ := h.again
      obtain ⟨hI', e, x, rest, hex, htag, hoff⟩ := hpass ts hlt hI hinv hget
      obtain ⟨fresh', done', hinv'⟩ := hinv.exchange hex htag
      rw [← hoff] at hinv'
      rw [← List.append_assoc]
      exact ih hlt hI' hinv'

/-- Random numbers for each pass make a run. -/
theorem QueueCalls.exists_split {J : Nat → σ → Prop}
    (hpass : ∀ {i p}, i < sat.pages → J i p → ∃ random < Q.randoms, ∃ pe p₁,
      Q.get .valid kInvalidTag random p = some (some pe, p₁) ∧ J (i + 1)
        (Q.put (visitedKind (i < sat.freepages)) (sat.visited (i < sat.freepages) 0 pe) p₁).2)
    {i : Nat} (hi : i ≤ sat.pages) {p : σ} (hJ : J i p) (w : World) :
    ∃ got p' w', Q.Split sat i p w got p' w' ∧ J sat.pages p' := by
  induction hn : sat.pages - i generalizing i p w with
  | zero =>
      obtain rfl : i = sat.pages := by omega
      refine ⟨[], p, w, .done ?_, hJ⟩
      rw [Sat.splitWork, if_pos le_rfl]
      exact .ret
  | succ n ih =>
      obtain ⟨random, hrandom, pe, p₁, hget, hJ'⟩ := hpass (by omega) hJ
      obtain ⟨got, p', w', hsplit, hend⟩ := ih (by omega) hJ' (sat.countRegion pe.offset w) (by omega)
      exact ⟨_, p', w', .again (runs_pass (by omega) hrandom 0 hget w) hsplit, hend⟩

end Whole

/-! ## `FineLockPEQueue` -/

namespace FineLock

open FineLockPEQueue

/-- The page at an offset is in a region whose bit is in `kInvalidTag`. -/
def Mistaken (sat : Sat) (offset : Nat) : Prop := sat.regionOf offset ∈ [0, 12, 13, 14, 15]

/-- Its tag matches `kInvalidTag` then. -/
theorem mistaken_iff {sat : Sat} {offset : Nat} : Mistaken sat offset ↔
    tagMatches kInvalidTag (BitVec.ofNat 32 (2 ^ sat.regionOf offset)) = true := by
  have hall : ∀ r < 32, r ∈ [0, 12, 13, 14, 15] ↔
      tagMatches kInvalidTag (BitVec.ofNat 32 (2 ^ r)) = true := by decide
  exact hall _ (sat.findRegion_lt _)

/-- Between two passes no page is locked. -/
def Unlocked (Q : FineLockPEQueue) (s : Pages) : Prop :=
  ∀ j < Q.qSize, s.pagelocks j = false ∧ (s.pages j).offset = j * Q.pageSize

section Search

variable {Q : FineLockPEQueue} {kind : PageKind} {tag : Word32} {s s' : Pages} {pe : PageEntry}

/-- A pass that looks at an available page takes it. -/
theorem searchLoop_take {firstTry n nextTry next : Nat} (hadv : Q.advance nextTry = some next)
    (hav : s.Available kind tag (Q.index firstTry nextTry)) :
    Q.searchLoop kind tag firstTry (n + 1) nextTry s =
      some (some (Q.copyOut kind (Q.qSize - (n + 1)) (s.pages (Q.index firstTry nextTry))),
        s.setLock (Q.index firstTry nextTry) true) := by
  obtain ⟨hlock, hkind, htag⟩ := hav
  simp [searchLoop, hadv, hkind, htag, hlock, Pages.setLock]

/-- What a search returns was available, whatever the search passes over. -/
theorem searchLoop_found (hq : 0 < Q.qSize) {firstTry n nextTry : Nat}
    (h : Q.searchLoop kind tag firstTry n nextTry s = some (some pe, s')) :
    (∃ j, Found Q kind tag s pe s' j) ∧ (Q.advance nextTry).isSome := by
  induction n generalizing nextTry with
  | zero => simp [searchLoop] at h
  | succ n ih =>
      cases hadv : Q.advance nextTry with
      | none =>
          rw [searchLoop, hadv] at h
          cases h
      | some next =>
          refine ⟨?_, rfl⟩
          by_cases hav : s.Available kind tag (Q.index firstTry nextTry)
          · rw [searchLoop_take hadv hav] at h
            obtain ⟨hpe, hs⟩ := Prod.mk.inj (Option.some.inj h)
            exact ⟨_, Path.index_lt hq _ _, hav, ⟨_, (Option.some.inj hpe).symm⟩, hs.symm⟩
          · rw [searchLoop_skip hadv hav] at h
            exact (ih h).1

theorem get_found {random : Nat}
    (h : Q.getRandomWithPredicateTag kind tag random s = some (some pe, s')) :
    (∃ j, Found Q kind tag s pe s' j) ∧ (Q.advance 1).isSome := by
  unfold getRandomWithPredicateTag at h
  split at h
  · simp at h
  · next hq => exact searchLoop_found (Nat.pos_of_ne_zero hq) h

/-- Any available page can be the one that is found. -/
theorem get_at (hq : Q.qSize < 2 ^ 64) (hadv : (Q.advance 1).isSome) {j : Nat} (hj : j < Q.qSize)
    (hav : s.Available kind tag j) : ∃ random < 2 ^ 64,
      Q.getRandomWithPredicateTag kind tag random s =
        some (some (Q.copyOut kind 0 (s.pages j)), s.setLock j true) := by
  obtain ⟨next, hnext⟩ := Option.isSome_iff_exists.mp hadv
  -- the search starts one page further on
  obtain ⟨first, hfirst, hindex⟩ : ∃ first < Q.qSize, Q.index first 1 = j := by
    by_cases hzero : j = 0
    · refine ⟨Q.qSize - 1, by omega, ?_⟩
      rw [Path.index, show 1 + (Q.qSize - 1) = Q.qSize by omega, Nat.mod_eq_of_lt hq, Nat.mod_self,
        hzero]
    · refine ⟨j - 1, by omega, ?_⟩
      rw [Path.index, show 1 + (j - 1) = j by omega, Nat.mod_eq_of_lt (hj.trans hq),
        Nat.mod_eq_of_lt hj]
  refine ⟨first, by omega, ?_⟩
  obtain ⟨n, hn⟩ := Nat.exists_eq_add_one_of_ne_zero (show Q.qSize ≠ 0 by omega)
  have htake := searchLoop_take (n := n) hnext (hindex.symm ▸ hav)
  rw [hindex, ← hn, Nat.sub_self] at htake
  rw [getRandomWithPredicateTag, if_neg (by omega), Nat.mod_eq_of_lt hfirst]
  exact htake

/-- A put of a page with a pattern. -/
theorem put_eq (hps : 0 < Q.pageSize) {j : Nat} (hj : j < Q.qSize) (hoff : pe.offset = j * Q.pageSize)
    (hpattern : pe.pattern.isSome) (kind : PageKind) (s : Pages) : Q.put kind pe s =
      (true, (s.setEntry j (if kind = .empty then pe.cleared else pe)).setLock j false) := by
  have hindex : pe.offset / Q.pageSize = j := by rw [hoff, Nat.mul_div_cancel _ hps]
  cases kind with
  | valid =>
      rw [FineLockPEQueue.put, putValid, if_neg, hindex, if_pos hj]
      · rfl
      · simp [PageKind.holds, hpattern]
        omega
  | empty =>
      rw [FineLockPEQueue.put, putEmpty, if_neg (by omega), hindex, if_pos hj]
      rfl

end Search

/-- A change at one place of a list over the numbers below `n`. -/
theorem range_exchange {α : Type} {f g : Nat → α} {n j : Nat} (hj : j < n)
    (h : ∀ k, k ≠ j → g k = f k) : ∃ rest, ((List.range n).map f).Perm (f j :: rest) ∧
      ((List.range n).map g).Perm (g j :: rest) := by
  have hperm := List.perm_cons_erase (List.mem_range.mpr hj)
  refine ⟨((List.range n).erase j).map f, hperm.map f, ?_⟩
  have hrest : ((List.range n).erase j).map g = ((List.range n).erase j).map f :=
    List.map_congr_left fun k hk => h k (List.nodup_range.mem_erase_iff.mp hk).1
  rw [← hrest]
  exact hperm.map g

section FineLock

variable (sat : Sat) {Q : FineLockPEQueue} {i j : Nat} {s s₁ : Pages} {pe : PageEntry}

/-- What a pass leaves in the arrays. -/
theorem put_visited (hps : 0 < Q.pageSize) (hs : Unlocked Q s)
    (hf : Found Q .valid kInvalidTag s pe s₁ j) (empty : Bool) (ts : Nat) :
    let s' := (Q.put (visitedKind empty) (sat.visited empty ts pe) s₁).2
    Unlocked Q s' ∧ (∀ k, k ≠ j → s'.pages k = s.pages k ∧ s'.pagelocks k = s.pagelocks k) ∧
      pe.offset = j * Q.pageSize ∧ (s'.pages j).offset = j * Q.pageSize ∧
      (s'.pages j).kind = visitedKind empty ∧ sat.HasRegion (s'.pages j) := by
  intro s'
  obtain ⟨pass, hpe⟩ := hf.entry
  have hoff : pe.offset = j * Q.pageSize := by rw [hpe, copyOut_offset, (hs j hf.lt).2]
  have hpattern : pe.pattern.isSome := by
    rw [hpe, copyOut_pattern]
    exact hf.available.2.1
  have hvisited : (sat.visited empty ts pe).offset = j * Q.pageSize := hoff
  have hput : s' = (s₁.setEntry j (if visitedKind empty = .empty then (sat.visited empty ts pe).cleared
      else sat.visited empty ts pe)).setLock j false :=
    congrArg Prod.snd (put_eq hps hf.lt hvisited hpattern _ s₁)
  have hother : ∀ k, k ≠ j → s'.pages k = s.pages k ∧ s'.pagelocks k = s.pagelocks k := by
    intro k hk
    rw [hput, hf.locks]
    simp [Pages.setEntry, Pages.setLock, hk]
  have hself : s'.pages j = (if visitedKind empty = .empty then (sat.visited empty ts pe).cleared
      else sat.visited empty ts pe) := by
    rw [hput]
    simp [Pages.setEntry, Pages.setLock]
  have hoff' : (s'.pages j).offset = j * Q.pageSize := by
    rw [hself]
    split <;> exact hoff
  refine ⟨fun k hk => ?_, hother, hoff, hoff', ?_, ?_⟩
  · by_cases hkj : k = j
    · subst hkj
      refine ⟨?_, hoff'⟩
      rw [hput]
      simp [Pages.setLock]
    · obtain ⟨hpages, hlocks⟩ := hother k hkj
      rw [hpages, hlocks]
      exact hs k hk
  · rw [hself]
    cases empty with
    | true => rfl
    | false => simp [visitedKind, PageEntry.kind, Sat.visited, hpattern]
  · rw [hself]
    split <;> exact ⟨rfl, rfl⟩

/-- A pass as an exchange of entries. -/
theorem exchange_of_found (hps : 0 < Q.pageSize) (hs : Unlocked Q s)
    (hf : Found Q .valid kInvalidTag s pe s₁ j) (i ts : Nat) :
    ∃ x rest, Exchange sat i (Q.calls.entries s) (Q.calls.entries
      (Q.put (visitedKind (i < sat.freepages)) (sat.visited (i < sat.freepages) ts pe) s₁).2)
        (s.pages j) x rest := by
  obtain ⟨-, hother, -, hoff, hkind, hregion⟩ :=
    put_visited sat hps hs hf (i < sat.freepages) ts
  obtain ⟨rest, hold, hnew⟩ := range_exchange (f := fun k => ((s.pages k).kind, s.pages k)) hf.lt
    fun k hk => congrArg (fun pe : PageEntry => (pe.kind, pe)) (hother k hk).1
  refine ⟨_, rest, ?_, hnew.trans ?_, hoff.trans (hs j hf.lt).2.symm, hregion⟩
  · rwa [PageKind.holds_iff.mp hf.available.2.1] at hold
  · rw [hkind]

variable {sat}

/-- While no page can be mistaken, a pass gets one without a region. -/
theorem tag_of_found (hq : Q.qSize = sat.pages)
    (hcond : sat.pages - sat.freepages ≤ 1 ∨ ∀ k < sat.pages, ¬Mistaken sat (k * Q.pageSize))
    (hi : i < sat.pages) (hs : Unlocked Q s) {got : List Nat} {region : Nat → Nat}
    {fresh : List PageEntry} {done : List (PageKind × PageEntry)}
    (hinv : SplitInv sat i got (Q.calls.entries s) region fresh done)
    (hf : Found Q .valid kInvalidTag s pe s₁ j) : (s.pages j).tag = kInvalidTag := by
  have hkind : (s.pages j).kind = .valid := PageKind.holds_iff.mp hf.available.2.1
  have hmem : ((s.pages j).kind, s.pages j) ∈ Q.calls.entries s :=
    List.mem_map.mpr ⟨j, List.mem_range.mpr hf.lt, rfl⟩
  rw [hkind, hinv.entries.mem_iff, List.mem_append] at hmem
  obtain hfresh | hdone := hmem
  · obtain ⟨e, he, heq⟩ := List.mem_map.mp hfresh
    rw [← (Prod.mk.inj heq).2]
    exact hinv.untagged e he
  · exfalso
    obtain hfew | hnone := hcond
    · -- a valid page that was put back comes after all the empty ones
      have hlt : done.countP (fun x => x.1 = .empty) < done.length := by
        refine lt_of_le_of_ne List.countP_le_length fun heq => ?_
        have hempty := List.countP_eq_length.mp heq _ hdone
        simp at hempty
      rw [hinv.empty, ← List.length_map (fun x : PageKind × PageEntry => x.2.offset),
        ← hinv.once.length_eq, hinv.count] at hlt
      omega
    · have hregion := hinv.tagged _ hdone
      have htag := hf.available.2.2
      rw [show (s.pages j).tag = _ from hregion.tag,
        show (s.pages j).paddr = _ from hregion.paddr] at htag
      refine hnone j (hq ▸ hf.lt) ?_
      rw [mistaken_iff, Sat.regionOf, ← (hs j hf.lt).2]
      exact htag

/-- While no page can be mistaken, a loop that succeeds has visited them all. -/
theorem visits (hps : 0 < Q.pageSize) (hq : Q.qSize = sat.pages) (hfree : sat.freepages ≤ sat.pages)
    (hcond : sat.pages - sat.freepages ≤ 1 ∨ (∀ k < sat.pages, ¬Mistaken sat (k * Q.pageSize)) ∨
      Q.advance 1 = none)
    (hs : Unlocked Q s) (hstart : sat.Untagged (Q.calls.entries s)) {s' : Pages} {w w' : World}
    (hw : w.region = fun _ => 0) {got : List Nat} (h : Q.calls.Split sat 0 s w got s' w') :
    sat.AllVisited got (Q.calls.entries s') w'.region := by
  have hinv := SplitInv.start hstart
  rw [← hw] at hinv
  obtain ⟨fresh, done, hend⟩ := h.inv (I := fun _ s => Unlocked Q s) (by
    intro i p got region fresh done random pe p₁ ts hi hs hinv hget
    obtain ⟨⟨j, hf⟩, hadv⟩ := get_found hget
    obtain ⟨hs', -, hoff, -⟩ := put_visited sat hps hs hf (i < sat.freepages) ts
    obtain ⟨x, rest, hex⟩ := exchange_of_found sat hps hs hf i ts
    refine ⟨hs', p.pages j, x, rest, hex, ?_, hoff.trans (hs j hf.lt).2.symm⟩
    refine tag_of_found hq (hcond.imp_right fun h => h.resolve_right fun hnone => ?_) hi hs hinv hf
    rw [hnone] at hadv
    cases hadv) (Nat.zero_le _) hs hinv
  exact hend.allVisited hfree

/-- What the passes leave that take the pages other than `b` while empty ones are wanted, and then page
`b` again and again. -/
structure Adversary (sat : Sat) (Q : FineLockPEQueue) (b i : Nat) (s : Pages) : Prop where
  unlocked : Unlocked Q s
  mistaken : s.Available .valid kInvalidTag b
  fresh : ∀ k < Q.qSize, k ≠ b → min i sat.freepages ≤ (if k < b then k else k - 1) →
    s.Available .valid kInvalidTag k ∧ (s.pages k).tag = kInvalidTag

theorem Adversary.pass {b : Nat} (h : Adversary sat Q b i s) (hps : 0 < Q.pageSize)
    (hq : Q.qSize = sat.pages) (hpages : sat.pages < 2 ^ 64) (hadv : (Q.advance 1).isSome)
    (hb : b < sat.pages) (hbad : Mistaken sat (b * Q.pageSize)) (htwo : sat.freepages + 2 ≤ sat.pages)
    (hi : i < sat.pages) : ∃ random < Q.calls.randoms, ∃ pe s₁,
      Q.calls.get .valid kInvalidTag random s = some (some pe, s₁) ∧ Adversary sat Q b (i + 1)
        (Q.calls.put (visitedKind (i < sat.freepages)) (sat.visited (i < sat.freepages) 0 pe) s₁).2 := by
  have hkeep {s' : Pages} {k : Nat} (hk : s'.pages k = s.pages k ∧ s'.pagelocks k = s.pagelocks k)
      (hav : s.Available .valid kInvalidTag k) : s'.Available .valid kInvalidTag k := by
    rwa [Pages.Available, hk.1, hk.2]
  by_cases hfew : i < sat.freepages
  · -- page `i` of those other than `b`
    obtain ⟨k, hk, hkb, hrank⟩ : ∃ k < Q.qSize, k ≠ b ∧ (if k < b then k else k - 1) = i := by
      by_cases hib : i < b
      · exact ⟨i, by omega, by omega, if_pos hib⟩
      · exact ⟨i + 1, by omega, by omega, by rw [if_neg (by omega)]; rfl⟩
    have hav := (h.fresh k hk hkb (by omega)).1
    obtain ⟨random, hrandom, hget⟩ := get_at (by omega) hadv hk hav
    obtain ⟨hunlocked, hother, -⟩ := put_visited sat hps h.unlocked
      (⟨hk, hav, ⟨0, rfl⟩, rfl⟩ : Found Q .valid kInvalidTag s _ _ k) (i < sat.freepages) 0
    refine ⟨random, hrandom, _, _, hget, hunlocked, hkeep (hother b hkb.symm) h.mistaken, ?_⟩
    intro k' hk' hkb' hmin
    obtain ⟨hav', htag'⟩ := h.fresh k' hk' hkb' (by omega)
    have hne : k' ≠ k := by
      rintro rfl
      omega
    exact ⟨hkeep (hother k' hne) hav', (congrArg PageEntry.tag (hother k' hne).1).trans htag'⟩
  · obtain ⟨random, hrandom, hget⟩ := get_at (by omega) hadv (hq ▸ hb) h.mistaken
    obtain ⟨hunlocked, hother, -, hoff, hkind, hregion⟩ := put_visited sat hps h.unlocked
      (⟨hq ▸ hb, h.mistaken, ⟨0, rfl⟩, rfl⟩ : Found Q .valid kInvalidTag s _ _ b)
      (i < sat.freepages) 0
    refine ⟨random, hrandom, _, _, hget, hunlocked, ⟨(hunlocked b (hq ▸ hb)).1, ?_, ?_⟩, ?_⟩
    · rw [PageKind.holds_iff]
      exact hkind.trans (by simp [visitedKind, hfew])
    · rw [mistaken_iff, Sat.regionOf, ← hoff] at hbad
      exact (congrArg (tagMatches kInvalidTag) (hregion.tag.trans (by rw [hregion.paddr]))).trans hbad
    · intro k' hk' hkb' hmin
      obtain ⟨hav', htag'⟩ := h.fresh k' hk' hkb' (by omega)
      exact ⟨hkeep (hother k' hkb') hav', (congrArg PageEntry.tag (hother k' hkb').1).trans htag'⟩

/-- A page that can be mistaken, and two pages to be put back as valid ones. -/
theorem revisits (hps : 0 < Q.pageSize) (hq : Q.qSize = sat.pages) (hpages : sat.pages < 2 ^ 64)
    (hadv : (Q.advance 1).isSome) {b : Nat} (hb : b < sat.pages)
    (hbad : Mistaken sat (b * Q.pageSize)) (htwo : sat.freepages + 2 ≤ sat.pages) (hs : Unlocked Q s)
    (hstart : sat.Untagged (Q.calls.entries s)) (w : World) :
    ∃ got s' w', Q.calls.Split sat 0 s w got s' w' ∧
      ¬sat.AllVisited got (Q.calls.entries s') w'.region := by
  have hmem (s : Pages) {k : Nat} (hk : k < Q.qSize) :
      ((s.pages k).kind, s.pages k) ∈ Q.calls.entries s :=
    List.mem_map.mpr ⟨k, List.mem_range.mpr hk, rfl⟩
  have hfresh : ∀ k < Q.qSize, s.Available .valid kInvalidTag k ∧ (s.pages k).tag = kInvalidTag := by
    intro k hk
    have htag := hstart.untagged _ (hmem s hk)
    refine ⟨⟨(hs k hk).1, (hstart.valid _ (hmem s hk)).2, ?_⟩, htag⟩
    rw [show (s.pages k).tag = _ from htag]
    rfl
  have hinit : Adversary sat Q b 0 s :=
    ⟨hs, (hfresh b (hq ▸ hb)).1, fun k hk _ _ => hfresh k hk⟩
  obtain ⟨got, s', w', hsplit, hend⟩ := QueueCalls.exists_split (J := Adversary sat Q b)
    (fun hi h => h.pass hps hq hpages hadv hb hbad htwo hi) (Nat.zero_le _) hinit w
  refine ⟨got, s', w', hsplit, fun hall => ?_⟩
  -- a page that no pass has taken
  obtain ⟨k, hk, hkb, hrank⟩ : ∃ k < Q.qSize, k ≠ b ∧
      sat.freepages ≤ (if k < b then k else k - 1) := by
    by_cases hib : sat.freepages < b
    · exact ⟨sat.freepages, by omega, by omega, by rw [if_pos hib]⟩
    · exact ⟨sat.freepages + 1, by omega, by omega, by rw [if_neg (by omega)]; omega⟩
  exact (hall.tagged _ (hmem s' hk)).tag_ne (hend.fresh k hk hkb (by omega)).2

end FineLock

end FineLock

/-! ## `PageEntryQueue` -/

namespace OneLock

open PageEntryQueue

/-- Where the entry taken is one of the first ones. -/
theorem popRandom_front {q : PageEntryQueue} {U W : List PageEntry} (hlist : q.toList = U ++ W)
    {random : Nat} (hplace : place random (U.length + W.length) < U.length) : ∃ pe U',
      (q.popRandom random).2 = some pe ∧ (q.popRandom random).1.qSize = q.qSize ∧
      (q.popRandom random).1.toList = U' ++ W ∧ (pe :: U').Perm U := by
  have hcount : q.count = U.length + W.length := by
    rw [← q.length_toList, hlist, List.length_append]
  have hpos : 0 < q.count := by omega
  obtain ⟨hpe, hsize, hrest⟩ := popRandom_spec random hpos
  have hfirst := toList_getElem? q hpos
  rw [loc_zero, hlist, List.getElem?_append_left (by omega)] at hfirst
  rw [hcount, hlist, List.getElem?_append_left hplace] at hpe
  rw [hcount, hlist, List.set_append_left _ _ hplace, List.tail_append_of_ne_nil] at hrest
  · have hget := List.getElem?_eq_getElem hplace
    exact ⟨_, _, hpe.trans hget, hsize, hrest, perm_cons_tail_set hfirst hget⟩
  · intro hnil
    have hlen := congrArg List.length hnil
    rw [List.length_set, List.length_nil] at hlen
    omega

theorem put_toList {queue : PageKind → PageEntryQueue} {kind : PageKind} (pe : PageEntry)
    (hroom : (queue kind).count + 1 < (queue kind).qSize) :
    let queue' := (calls.put kind pe queue).2
    (queue' kind).toList = (queue kind).toList ++ [pe] ∧ (∀ k, k ≠ kind → queue' k = queue k) ∧
      ∀ k, (queue' k).qSize = (queue k).qSize := by
  obtain ⟨-, hsize, hlist⟩ := push_spec pe hroom
  intro queue'
  have hother : ∀ k, k ≠ kind → queue' k = queue k := fun k hk => Function.update_of_ne hk _ _
  have hself : queue' kind = ((queue kind).push pe).1 := Function.update_self _ _ _
  refine ⟨by rw [hself, hlist], hother, fun k => ?_⟩
  by_cases hk : k = kind
  · rw [hk, hself, hsize]
  · rw [hother k hk]

/-- Before pass `i` the entries `U` without a region stand in front of those `W` that were put back. -/
structure Lined (sat : Sat) (i : Nat) (queue : PageKind → PageEntryQueue) (U W : List PageEntry) :
    Prop where
  qSize : ∀ kind, (queue kind).qSize = sat.pages + 1
  valid : (queue .valid).toList = U ++ W
  empty : (queue .empty).count = min i sat.freepages
  front : U.length = sat.pages - i
  back : W.length = i - sat.freepages
  untagged : ∀ pe ∈ U, pe.tag = kInvalidTag

variable {sat : Sat} {i : Nat} {queue : PageKind → PageEntryQueue} {U W : List PageEntry}

/-- An entry at the end of the first of two lists. -/
theorem map_append_perm_front {α β : Type} (f : α → β) (l : List α) (x : α) (l' : List β) :
    ((l ++ [x]).map f ++ l').Perm (f x :: (l.map f ++ l')) := by
  rw [List.map_append, List.append_assoc]
  exact List.perm_middle

/-- An entry at the end of the second one. -/
theorem map_append_perm_back {α β : Type} (f : α → β) (l : List α) (x : α) (l' : List β) :
    (l' ++ (l ++ [x]).map f).Perm (f x :: (l' ++ l.map f)) := by
  rw [List.map_append, ← List.append_assoc]
  exact List.perm_append_singleton _ _

/-- A pass that takes an entry of the front. -/
theorem Lined.pass (h : Lined sat i queue U W) (hi : i < sat.pages) {random : Nat}
    (hplace : place random (U.length + W.length) < U.length) (ts : Nat) : ∃ pe p₁,
      calls.get .valid kInvalidTag random queue = some (some pe, p₁) ∧ pe.tag = kInvalidTag ∧
      let queue' :=
        (calls.put (visitedKind (i < sat.freepages)) (sat.visited (i < sat.freepages) ts pe) p₁).2
      (∃ U' W', Lined sat (i + 1) queue' U' W') ∧
        ∃ x rest, Exchange sat i (calls.entries queue) (calls.entries queue') pe x rest := by
  obtain ⟨pe, U', hpe, hsize, hlist, hperm⟩ := popRandom_front h.valid hplace
  have hlen : U'.length + 1 = U.length := hperm.length_eq
  have hfront := h.front
  have hback := h.back
  let p₁ := Function.update queue .valid ((queue .valid).popRandom random).1
  have hself : p₁ .valid = ((queue .valid).popRandom random).1 := Function.update_self _ _ _
  have hvalid : (p₁ .valid).toList = U' ++ W := by rw [hself, hlist]
  have hempty : p₁ .empty = queue .empty := Function.update_of_ne (by decide) _ _
  have hsize₁ : ∀ kind, (p₁ kind).qSize = sat.pages + 1 := by
    intro kind
    cases kind with
    | valid => rw [hself, hsize, h.qSize]
    | empty => rw [hempty, h.qSize]
  have hcount : (p₁ .valid).count = U'.length + W.length := by
    rw [← (p₁ .valid).length_toList, hvalid, List.length_append]
  have huntagged : ∀ pe' ∈ pe :: U', pe'.tag = kInvalidTag := fun pe' hmem =>
    h.untagged pe' (hperm.mem_iff.mp hmem)
  have hold : (calls.entries queue).Perm ((.valid, pe) ::
      ((U' ++ W).map (PageKind.valid, ·) ++ (queue .empty).toList.map (PageKind.empty, ·))) := by
    change ((queue .valid).toList.map _ ++ _).Perm _
    rw [h.valid]
    exact ((hperm.append_right W).symm.map (PageKind.valid, ·)).append_right _
  refine ⟨pe, p₁, congrArg (fun r => some (r, p₁)) hpe, huntagged pe List.mem_cons_self, ?_⟩
  by_cases hfew : i < sat.freepages
  · have hkind : visitedKind (i < sat.freepages) = .empty := by simp [visitedKind, hfew]
    have hroom : (p₁ .empty).count + 1 < (p₁ .empty).qSize := by
      rw [hsize₁, hempty, h.empty]
      omega
    obtain ⟨hput, hother, hsize'⟩ := put_toList (sat.visited (i < sat.freepages) ts pe) hroom
    rw [hkind]
    refine ⟨⟨U', W, fun kind => (hsize' kind).trans (hsize₁ kind), ?_, ?_, by omega, by omega,
      fun pe' hmem => huntagged pe' (List.mem_cons_of_mem _ hmem)⟩,
      sat.visited (i < sat.freepages) ts pe, _, hold, ?_, rfl, sat.hasRegion_visited _ _ _⟩
    · rw [hother .valid (by decide), hvalid]
    · rw [← length_toList, hput, List.length_append, length_toList, hempty, h.empty,
        List.length_singleton]
      omega
    · change (((calls.put .empty _ p₁).2 .valid).toList.map _ ++
        ((calls.put .empty _ p₁).2 .empty).toList.map _).Perm _
      rw [hother .valid (by decide), hvalid, hput, hempty, hkind]
      exact map_append_perm_back _ _ _ _
  · have hkind : visitedKind (i < sat.freepages) = .valid := by simp [visitedKind, hfew]
    have hroom : (p₁ .valid).count + 1 < (p₁ .valid).qSize := by
      rw [hsize₁, hcount]
      omega
    obtain ⟨hput, hother, hsize'⟩ := put_toList (sat.visited (i < sat.freepages) ts pe) hroom
    rw [hkind]
    refine ⟨⟨U', W ++ [sat.visited (i < sat.freepages) ts pe],
      fun kind => (hsize' kind).trans (hsize₁ kind), ?_, ?_, by omega, ?_,
      fun pe' hmem => huntagged pe' (List.mem_cons_of_mem _ hmem)⟩,
      sat.visited (i < sat.freepages) ts pe, _, hold, ?_, rfl, sat.hasRegion_visited _ _ _⟩
    · rw [hput, hvalid, List.append_assoc]
    · rw [hother .empty (by decide), hempty, h.empty]
      omega
    · rw [List.length_append, List.length_singleton]
      omega
    · change (((calls.put .valid _ p₁).2 .valid).toList.map _ ++
        ((calls.put .valid _ p₁).2 .empty).toList.map _).Perm _
      rw [hother .empty (by decide), hput, hvalid, hempty, hkind]
      exact map_append_perm_front _ _ _ _

theorem Lined.start (hsize : ∀ kind, (queue kind).qSize = sat.pages + 1)
    (hempty : (queue .empty).toList = []) (hstart : sat.Untagged (calls.entries queue)) :
    Lined sat 0 queue (queue .valid).toList [] where
  qSize := hsize
  valid := (List.append_nil _).symm
  empty := by rw [← length_toList, hempty, List.length_nil, Nat.zero_min]
  front := by
    have hlen := hstart.pages.length_eq
    simp only [calls, Sat.offsets, List.length_map, List.length_append, List.length_range, hempty,
      List.length_nil] at hlen
    omega
  back := by rw [List.length_nil, Nat.zero_sub]
  untagged pe hpe :=
    hstart.untagged (.valid, pe) (List.mem_append_left _ (List.mem_map_of_mem hpe))

/-- With at most two pages put back as valid ones, each pass takes an entry of the front. -/
theorem visits (hfree : sat.freepages ≤ sat.pages) (hfew : sat.pages - sat.freepages ≤ 2)
    (hsize : ∀ kind, (queue kind).qSize = sat.pages + 1) (hempty : (queue .empty).toList = [])
    (hstart : sat.Untagged (calls.entries queue)) {queue' : PageKind → PageEntryQueue} {w w' : World}
    (hw : w.region = fun _ => 0) {got : List Nat} (h : calls.Split sat 0 queue w got queue' w') :
    sat.AllVisited got (calls.entries queue') w'.region := by
  have hinv := SplitInv.start hstart
  rw [← hw] at hinv
  obtain ⟨fresh, done, hend⟩ := h.inv (I := fun i queue => ∃ U W, Lined sat i queue U W) (by
    intro i p got region fresh done random pe p₁ ts hi hlined _ hget
    obtain ⟨U, W, hlined⟩ := hlined
    have hfront := hlined.front
    have hback := hlined.back
    have hplace : place random (U.length + W.length) < U.length := by
      by_cases hnone : W.length = 0
      · have hlt := place_lt random (show 0 < U.length + W.length by omega)
        omega
      · rw [place, if_neg (by omega), show U.length + W.length - 1 = 1 by omega, Nat.mod_one]
        omega
    obtain ⟨pe', p₁', hget', htag, hnext, x, rest, hex⟩ := hlined.pass hi hplace ts
    obtain ⟨hpe, rfl⟩ := Prod.mk.inj (Option.some.inj (hget.symm.trans hget'))
    obtain rfl := Option.some.inj hpe
    exact ⟨hnext, pe, x, rest, hex, htag, rfl⟩) (Nat.zero_le _) ⟨_, _, .start hsize hempty hstart⟩ hinv
  exact hend.allVisited hfree

/-- The last entry of the front stays where it is when the one behind it is taken. -/
theorem Lined.last (h : Lined sat i queue U W) (hi : i + 1 = sat.pages)
    (hthree : sat.freepages + 3 ≤ sat.pages) : ∃ pe p₁,
      calls.get .valid kInvalidTag 1 queue = some (some pe, p₁) ∧
      ∃ u ∈ ((calls.put (visitedKind (i < sat.freepages)) (sat.visited (i < sat.freepages) 0 pe) p₁).2
        .valid).toList, u.tag = kInvalidTag := by
  have hfront := h.front
  have hback := h.back
  obtain ⟨u, hU⟩ := List.length_eq_one_iff.mp (show U.length = 1 by omega)
  obtain ⟨x, W', hW⟩ : ∃ x W', W = x :: W' := List.exists_cons_of_length_pos (by omega)
  have hlist : (queue .valid).toList = u :: x :: W' := by rw [h.valid, hU, hW]; rfl
  have hcount : (queue .valid).count = W'.length + 2 := by rw [← length_toList, hlist]; rfl
  have hlen : W.length = W'.length + 1 := by rw [hW]; rfl
  have hplace : place 1 (queue .valid).count = 1 := by
    rw [hcount, place, if_neg (by omega), Nat.mod_eq_of_lt (by omega)]
  obtain ⟨hpe, hsize, hrest⟩ := popRandom_spec 1 (show 0 < (queue .valid).count by omega)
  have hfirst := toList_getElem? (queue .valid) (show 0 < (queue .valid).count by omega)
  rw [loc_zero, hlist] at hfirst
  obtain rfl := Option.some.inj hfirst
  rw [hplace, hlist] at hpe hrest
  refine ⟨x, _, congrArg (fun r => some (r, Function.update queue .valid
    ((queue .valid).popRandom 1).1)) hpe, (queue .valid).pages (queue .valid).nextout, ?_,
    h.untagged _ (by rw [hU]; exact List.mem_singleton_self _)⟩
  have hkind : visitedKind (i < sat.freepages) = .valid := by
    simp [visitedKind]
    omega
  have hself : Function.update queue .valid ((queue .valid).popRandom 1).1 .valid =
      ((queue .valid).popRandom 1).1 := Function.update_self _ _ _
  rw [hkind, (put_toList _ _).1, hself, hrest]
  · simp
  · rw [hself, ← length_toList, hrest, hsize, h.qSize]
    simp
    omega

/-- Three pages put back as valid ones. -/
theorem revisits (hthree : sat.freepages + 3 ≤ sat.pages)
    (hsize : ∀ kind, (queue kind).qSize = sat.pages + 1) (hempty : (queue .empty).toList = [])
    (hstart : sat.Untagged (calls.entries queue)) (w : World) :
    ∃ got queue' w', calls.Split sat 0 queue w got queue' w' ∧
      ¬sat.AllVisited got (calls.entries queue') w'.region := by
  have hinit : (0 < sat.pages ∧ ∃ U W, Lined sat 0 queue U W) ∨
      (0 = sat.pages ∧ ∃ u ∈ (queue .valid).toList, u.tag = kInvalidTag) :=
    Or.inl ⟨by omega, _, _, .start hsize hempty hstart⟩
  -- the first entry is taken each time but the last
  obtain ⟨got, queue', w', hsplit, hend⟩ := QueueCalls.exists_split
    (J := fun i queue => (i < sat.pages ∧ ∃ U W, Lined sat i queue U W) ∨
      (i = sat.pages ∧ ∃ u ∈ (queue .valid).toList, u.tag = kInvalidTag)) (by
    intro i p hi hJ
    change i < sat.pages at hi
    obtain ⟨-, U, W, hlined⟩ := hJ.resolve_right fun h => by omega
    by_cases hlast : i + 1 = sat.pages
    · obtain ⟨pe, p₁, hget, hstay⟩ := hlined.last hlast hthree
      exact ⟨1, by decide, pe, p₁, hget, Or.inr ⟨hlast, hstay⟩⟩
    · have hfront := hlined.front
      have hplace : place 0 (U.length + W.length) < U.length := by
        rw [place]
        split
        · omega
        · rw [Nat.zero_mod]
          omega
      obtain ⟨pe, p₁, hget, -, hnext, -⟩ := hlined.pass hi hplace 0
      have hmore : i + 1 < sat.pages := by omega
      exact ⟨0, by decide, pe, p₁, hget, Or.inl ⟨hmore, hnext⟩⟩) (Nat.zero_le _) hinit w
  obtain ⟨-, u, hu, htag⟩ := hend.resolve_left fun h => lt_irrefl _ h.1
  refine ⟨got, queue', w', hsplit, fun hall => ?_⟩
  exact (hall.tagged (.valid, u) (List.mem_append_left _ (List.mem_map_of_mem hu))).tag_ne htag

end OneLock

/-- **The split loop.** Whatever the random numbers are, a loop that succeeds has visited every page once:
with `FineLockPEQueue` if and only if at most one page is put back as a valid one, or no page is in one
of the five regions, or the searches of the queue do not end; with `PageEntryQueue` if and only if at
most two pages are put back as valid ones. -/
theorem queue_split_iff (sat : Sat) (hpages : sat.pages < 2 ^ 63)
    (hfree : sat.freepages ≤ sat.pages / 2) (w : World) (hw : w.region = fun _ => 0) :
    (∀ Q s, FineLock.FineLockPEQueue.construct sat.pages sat.pageLength = some Q →
      FineLock.Unlocked Q s → sat.Untagged (Q.calls.entries s) →
      ((∀ got s' w', Q.calls.Split sat 0 s w got s' w' →
        sat.AllVisited got (Q.calls.entries s') w'.region) ↔
        sat.pages - sat.freepages ≤ 1 ∨
          (∀ k < sat.pages, ¬FineLock.Mistaken sat (k * sat.pageLength)) ∨ Q.advance 1 = none)) ∧
    ∀ queue : PageKind → OneLock.PageEntryQueue, (∀ kind, (queue kind).qSize = sat.pages + 1) →
      (queue .empty).toList = [] → sat.Untagged (OneLock.calls.entries queue) →
      ((∀ got queue' w', OneLock.calls.Split sat 0 queue w got queue' w' →
        sat.AllVisited got (OneLock.calls.entries queue') w'.region) ↔
        sat.pages - sat.freepages ≤ 2) := by
  constructor
  · intro Q s hQ hs hstart
    obtain ⟨hq, hps⟩ := FineLock.FineLockPEQueue.construct_fields hQ
    have hlength : 0 < Q.pageSize := by
      obtain ⟨k, hk⟩ := sat.length_eq
      rw [hps, hk]
      exact Nat.mul_pos (by decide) (Nat.two_pow_pos k)
    rw [← hps]
    constructor
    · intro h
      by_contra hcond
      simp only [not_or, not_forall, not_not] at hcond
      obtain ⟨htwo, ⟨b, hb, hbad⟩, hadv⟩ := hcond
      obtain ⟨got, s', w', hsplit, hnot⟩ := FineLock.revisits hlength hq (by omega)
        (Option.isSome_iff_ne_none.mpr hadv) hb hbad (by omega) hs hstart w
      exact hnot (h got s' w' hsplit)
    · intro hcond got s' w' hsplit
      exact FineLock.visits hlength hq (by omega) hcond hs hstart hw hsplit
  · intro queue hsize hempty hstart
    constructor
    · intro h
      by_contra hthree
      obtain ⟨got, queue', w', hsplit, hnot⟩ :=
        OneLock.revisits (by omega) hsize hempty hstart w
      exact hnot (h got queue' w' hsplit)
    · intro hfew got queue' w' hsplit
      exact OneLock.visits (by omega) hfew hsize hempty hstart hw hsplit

/-! ## Five pages -/

/-- All pages as the initial fill leaves them. -/
theorem untagged_plain {sat : Sat} (hpages : sat.pages = 5) (hlength : sat.pageLength = 1024)
    (Q : FineLock.FineLockPEQueue) (hq : Q.qSize = sat.pages) (locks : Nat → Bool) :
    sat.Untagged (Q.calls.entries ⟨fun i => .plain (i * 1024) (some .first), locks⟩) where
  pages := by
    refine .of_eq ?_
    simp [FineLock.FineLockPEQueue.calls, Sat.offsets, PageEntry.plain, hq, hpages, hlength]
  valid x hx := by
    obtain ⟨i, -, rfl⟩ := List.mem_map.mp hx
    exact ⟨rfl, rfl⟩
  untagged x hx := by
    obtain ⟨i, -, rfl⟩ := List.mem_map.mp hx
    rfl

/-- The pages are in region 1. `FineLockPEQueue` visits them all, and `PageEntryQueue` need not. -/
theorem queue_split_region_one :
    let sat : Sat := { Sat.small 5 2 with findRegion := fun _ => 1, findRegion_lt := fun _ => by decide }
    let Q : FineLock.FineLockPEQueue := ⟨⟨5, 5, 7, 8⟩, 1024, .kTouch⟩
    let s : FineLock.Pages := ⟨fun i => .plain (i * 1024) (some .first), fun _ => false⟩
    let queue : PageKind → OneLock.PageEntryQueue
      | .valid => ⟨fun k => .plain (k * 1024) (some .first), 5, 0, 6, by decide, by decide⟩
      | .empty => .construct (fun _ => .plain 0 none) 5
    (∀ got s' w', Q.calls.Split sat 0 s World.blank got s' w' → got.Perm [0, 1024, 2048, 3072, 4096]) ∧
      ∃ got queue' w', OneLock.calls.Split sat 0 queue World.blank got queue' w' ∧
        ¬sat.AllVisited got (OneLock.calls.entries queue') w'.region := by
  intro sat Q s queue
  obtain ⟨hfine, hone⟩ := queue_split_iff sat (by decide) (by decide) World.blank rfl
  constructor
  · intro got s' w' h
    have hQ : FineLock.FineLockPEQueue.construct 5 1024 = some Q := by decide +kernel
    have hclear : ∀ k < 5, ¬FineLock.Mistaken sat (k * 1024) :=
      fun _ _ => show (1 : Nat) ∉ [0, 12, 13, 14, 15] by decide
    exact ((hfine Q s hQ (fun j _ => ⟨rfl, rfl⟩) (untagged_plain rfl rfl Q rfl _)).mpr
      (.inr (.inl hclear)) got s' w' h).once
  · have hempty : (queue .empty).toList = [] := OneLock.PageEntryQueue.toList_construct _ 5
    have hoffsets : ((OneLock.calls.entries queue).map fun x => x.2.offset) =
        [0, 1024, 2048, 3072, 4096] := by decide +kernel
    have hall : ∀ x ∈ OneLock.calls.entries queue,
        x.1 = .valid ∧ x.2.pattern.isSome ∧ x.2.tag = kInvalidTag := by
      intro x hx
      simp only [OneLock.calls, hempty, List.map_nil, List.append_nil, List.mem_map] at hx
      obtain ⟨pe, hpe, rfl⟩ := hx
      obtain ⟨k, -, rfl⟩ := List.mem_map.mp hpe
      exact ⟨rfl, rfl, rfl⟩
    have hstart : sat.Untagged (OneLock.calls.entries queue) :=
      ⟨.of_eq hoffsets, fun x hx => ⟨(hall x hx).1, (hall x hx).2.1⟩, fun x hx => (hall x hx).2.2⟩
    have hnot := (hone queue (fun kind => by cases kind <;> rfl) hempty hstart).not.mpr (by decide)
    simpa only [not_forall, exists_prop] using hnot

/-- The pages are in region 0, and a page that was put back is got again. -/
theorem queue_split_region_zero :
    let sat := Sat.small 5 2
    let Q : FineLock.FineLockPEQueue := ⟨⟨5, 5, 7, 8⟩, 1024, .kTouch⟩
    let s : FineLock.Pages := ⟨fun i => .plain (i * 1024) (some .first), fun _ => false⟩
    FineLock.FineLockPEQueue.construct 5 1024 = some Q ∧ sat.Untagged (Q.calls.entries s) ∧
      ∃ got s' w', Q.calls.Split sat 0 s World.blank got s' w' ∧
        ¬sat.AllVisited got (Q.calls.entries s') w'.region := by
  intro sat Q s
  have hstart : sat.Untagged (Q.calls.entries s) := untagged_plain rfl rfl Q rfl _
  have hbad : FineLock.Mistaken sat (0 * Q.pageSize) :=
    show (0 : Nat) ∈ [0, 12, 13, 14, 15] from List.mem_cons_self
  exact ⟨by decide +kernel, hstart, FineLock.revisits (by decide) rfl (by decide) (by decide)
    (show 0 < sat.pages by decide) hbad (by decide) (fun j _ => ⟨rfl, rfl⟩) hstart World.blank⟩

end StressAppTest
