import StressAppTest.Workers.Grip

/-!
# The loops keep the promises

Each page operation of `Workers.World` in terms of what a worker knows: `Grip.Page` says which words
a page in hand holds. Looking at the world and checking a clean page change nothing that matters
(`grip_quiet`); filling, copying, inverting and the ways through a file and a connection change pages
in hand only. From these rules `grip_body` follows, one loop at a time.
-/

namespace StressAppTest

open Threads Work Contract StressAppTest.Sat

namespace Grip

variable {sat : Sat} {blank : Bool} {x : Grip sat} {i j : Nat} {f g : Nat → Word64} {w : World}

/-- Page `i` is in hand, and the worker knows its words. -/
structure Page (x : Grip sat) (i : Nat) (f : Nat → Word64) : Prop where
  mem : i ∈ x.holding.hand
  words : ∀ w, x.know w → ∀ k < sat.pageWords, w.mem (sat.pageBase i + k) = f k

theorem Page.inWorld (hi : i ∈ x.holding.hand)
    (h : ∀ k < sat.pageWords, w.mem (sat.pageBase i + k) = f k) : (x.inWorld w).Page i f where
  mem := hi
  words _ hw k hk := (hw.mem i hi _ (Sat.onPage_add hk)).trans (h k hk)

theorem Page.gain (h : x.Page i f) (j : Nat) (kind : PageKind) (pattern : Option Pattern) :
    (x.gain blank j kind pattern).Page i f where
  mem := Multiset.mem_cons_of_mem h.mem
  words w hw := h.words w hw.1

theorem Page.drop (h : x.Page i f) (hij : i ≠ j) : (x.drop j).Page i f where
  mem := (Multiset.mem_erase_of_ne hij).mpr h.mem
  words w hw k hk := by
    obtain ⟨w₀, hw₀, ha⟩ := hw
    rw [ha.mem i ((Multiset.mem_erase_of_ne hij).mpr h.mem) _ (Sat.onPage_add hk)]
    exact h.words w₀ hw₀ k hk

/-- Page `i` is in hand and holds the words of a pattern. -/
def Clean (x : Grip sat) (i : Nat) (p : Pattern) : Prop := x.Page i (sat.fillWord (sat.pageBase i) p)

theorem Clean.clean {p : Pattern} (h : x.Clean i p) (hw : x.know w) :
    sat.Clean w.mem (sat.pageBase i) p sat.pageWords := h.words w hw

end Grip

/-! ## Rules for the operations -/

section Rules

variable {sat : Sat} {blank : Bool} {β : Type} {Q : β → Grip sat → Prop} {x : Grip sat} {i j : Nat}

theorem grip_act {f : Nat → World → World × β}
    (h : ∀ n w, x.know w → sat.Frame x.holding w (f n w).1 ∧ Q (f n w).2 (x.inWorld (f n w).1)) :
    (gripContract sat blank).Follows Q (act f) x :=
  follows_act fun n w hw => ⟨x.inWorld (f n w).1, ⟨(h n w hw).1, rfl, .refl _ _⟩, (h n w hw).2⟩

/-- A step that leaves the memory, the files and the connections as they are. -/
theorem grip_quiet {f : Nat → World → World × β}
    (hf : ∀ n w, x.know w → (f n w).1.mem = w.mem ∧ (f n w).1.file = w.file ∧
      (f n w).1.socket = w.socket ∧ (f n w).1.miscompares = w.miscompares)
    (h : ∀ n w, x.know w → Q (f n w).2 x) : (gripContract sat blank).Follows Q (act f) x := by
  refine follows_act fun n w hw => ?_
  obtain ⟨hmem, hfile, hsocket, hmis⟩ := hf n w hw
  refine ⟨x, ⟨⟨fun _ _ => by rw [hmem], fun _ _ => by rw [hfile], fun _ _ => by rw [hsocket], hmis⟩,
    rfl, x.stable ⟨fun _ _ _ _ => by rw [hmem], fun _ _ => by rw [hfile], fun _ _ => by rw [hsocket]⟩ hw⟩,
    h n w hw⟩

theorem grip_look {f : World → β} (h : ∀ b, Q b x) :
    (gripContract sat blank).Follows Q (look f) x :=
  grip_quiet (fun _ _ _ => ⟨rfl, rfl, rfl, rfl⟩) fun _ w _ => h (f w)

theorem grip_keepRunning {Q : Bool → Grip sat → Prop} (id : StatusId) (h : ∀ b, Q b x) :
    (gripContract sat blank).Follows Q (keepRunning id) x := by
  refine follows_bind (Q := fun _ x' => x' = x) (grip_look fun _ => rfl) ?_
  rintro (_ | _) x' rfl
  · exact h false
  · refine follows_bind (Q := fun _ y => y = x') (grip_look fun _ => rfl) ?_
    rintro b y rfl
    exact h _

/-- A get, by the kind of page. -/
theorem grip_get {Q : Option PageEntry → Grip sat → Prop} {kind : PageKind} {tag : Word32}
    (hsome : ∀ pe i, pe.offset = i * sat.pageLength → i ∉ x.holding.hand →
      (∃ w, (x.gain blank i kind pe.pattern).know w) → Q (some pe) (x.gain blank i kind pe.pattern))
    (hnone : Q none x) : (gripContract sat blank).Follows Q (get kind tag) x := by
  refine ⟨trivial, ?_⟩
  rintro ((_ | pe) | ok) x' ⟨rfl, hsound, hnodup, hknow⟩
  · exact hnone
  · obtain ⟨i, -, hoff⟩ := hsound
    have hidx : pe.offset / sat.pageLength = i := by rw [hoff, Nat.mul_div_cancel _ sat.pageLength_pos]
    simp only [Grip.settled, hidx] at hnodup hknow ⊢
    exact hsome pe i hoff (Multiset.nodup_cons.mp hnodup).1 hknow
  · exact hsound.elim

/-- A put of a page that keeps its promise. -/
theorem grip_put {Q : Bool → Grip sat → Prop} {kind : PageKind} {pe : PageEntry}
    (hoff : pe.offset = i * sat.pageLength) (hi : i ∈ x.holding.hand)
    (hsound : ∀ w, x.know w → sat.PageSound blank w.mem i kind pe.pattern)
    (htrue : Q true (x.drop i)) (hfalse : Q false x) :
    (gripContract sat blank).Follows Q (put kind pe) x := by
  refine ⟨⟨i, hi, hoff, hsound⟩, ?_⟩
  have hidx : pe.offset / sat.pageLength = i := by rw [hoff, Nat.mul_div_cancel _ sat.pageLength_pos]
  rintro (e | _ | _) x' ⟨rfl, hdone, -⟩
  · exact hdone.elim
  · exact hfalse
  · simp only [Grip.settled, hidx]
    exact htrue

/-- The entry is the one of page `i`, and the page is mapped. -/
structure Sat.Mapped (sat : Sat) (pe : PageEntry) (i : Nat) : Prop where
  offset : pe.offset = i * sat.pageLength
  memblock : pe.memblock = sat.pageBase i

theorem mapped_of_offset {pe : PageEntry} (hoff : pe.offset = i * sat.pageLength) :
    sat.Mapped { pe with addr := some (sat.prepareTestMem pe.offset) } i where
  offset := hoff
  memblock := by
    rw [PageEntry.memblock, Option.getD_some, hoff]
    exact sat.prepareTestMem_div i

theorem grip_getValid {Q : Option PageEntry → Grip sat → Prop} {tag : Word32}
    (hsome : ∀ pe i p y, sat.Mapped pe i → pe.pattern = some p → i ∉ x.holding.hand →
      y = x.gain blank i .valid (some p) → y.Clean i p → Q (some pe) y) (hnone : Q none x) :
    (gripContract sat blank).Follows Q (sat.getValid tag) x := by
  refine follows_bind (Q := onOption (fun pe y => ∃ i p, pe.offset = i * sat.pageLength ∧
    pe.pattern = some p ∧ i ∉ x.holding.hand ∧ y = x.gain blank i .valid (some p)) (· = x))
    (grip_get (fun pe i hoff hi hknow => ?_) rfl) ?_
  · obtain ⟨w, -, p, hp, -⟩ := hknow
    exact ⟨i, p, hoff, hp, hi, by rw [hp]⟩
  · rintro (_ | pe) y hy
    · exact hy ▸ hnone
    · obtain ⟨i, p, hoff, hp, hi, hgain⟩ := hy
      have hclean : y.Clean i p := by
        subst hgain
        refine ⟨Multiset.mem_cons_self _ _, fun w hw => ?_⟩
        obtain ⟨-, p', hp', hclean⟩ := hw
        obtain rfl := Option.some.inj hp'
        exact hclean
      refine grip_quiet (fun _ _ _ => ⟨rfl, rfl, rfl, rfl⟩) fun ts w _ => ?_
      have hmapped : sat.Mapped { pe with addr := some (sat.prepareTestMem pe.offset) } i :=
        mapped_of_offset hoff
      exact hsome _ i p y ⟨hmapped.offset, hmapped.memblock⟩ hp hi hgain hclean

theorem grip_getEmpty {Q : Option PageEntry → Grip sat → Prop} {tag : Word32}
    (hsome : ∀ pe i pattern, sat.Mapped pe i → i ∉ x.holding.hand →
      Q (some pe) (x.gain blank i .empty pattern)) (hnone : Q none x) :
    (gripContract sat blank).Follows Q (sat.getEmpty tag) x := by
  refine follows_bind (Q := onOption (fun pe y => ∃ i pattern, pe.offset = i * sat.pageLength ∧
    i ∉ x.holding.hand ∧ y = x.gain blank i .empty pattern) (· = x))
    (grip_get (fun pe i hoff hi _ => ⟨i, pe.pattern, hoff, hi, rfl⟩) rfl) ?_
  rintro (_ | pe) y hy
  · exact hy ▸ hnone
  · obtain ⟨i, pattern, hoff, hi, rfl⟩ := hy
    exact hsome _ i pattern (mapped_of_offset hoff) hi

theorem grip_putValid {Q : Bool → Grip sat → Prop} {pe : PageEntry} {p : Pattern}
    (hpe : sat.Mapped pe i) (hp : pe.pattern = some p) (hx : x.Clean i p) (htrue : Q true (x.drop i))
    (hfalse : Q false x) : (gripContract sat blank).Follows Q (putValid pe) x :=
  grip_put hpe.offset hx.mem (fun _ hw => ⟨p, hp, hx.clean hw⟩) htrue hfalse

theorem grip_putEmpty {Q : Bool → Grip sat → Prop} {pe : PageEntry} (hpe : sat.Mapped pe i)
    (hi : i ∈ x.holding.hand) (hx : sat.tagMode = true → blank = false →
      ∀ w, x.know w → Tagged w.mem (sat.pageBase i) sat.pageWords)
    (htrue : Q true (x.drop i)) (hfalse : Q false x) :
    (gripContract sat blank).Follows Q (putEmpty pe) x :=
  grip_put hpe.offset hi (fun w hw htag hblank => hx htag hblank w hw) htrue hfalse

/-! ### Checks -/

theorem Sat.report_zero (w : World) : sat.report 0 w = w := by simp [Sat.report]

/-- **No false alarm.** The check of a clean page finds nothing. -/
theorem grip_checkPage {Q : Nat → Grip sat → Prop} {pe : PageEntry} {p : Pattern}
    (hpe : sat.Mapped pe i) (hp : pe.pattern = some p) (hx : x.Clean i p) (h : Q 0 x) :
    (gripContract sat blank).Follows Q (sat.checkPage pe) x := by
  have hcheck {w : World} (hw : x.know w) :
      sat.crcCheckPage w.mem pe.memblock p = ⟨w.mem, 0, 0⟩ := by
    rw [hpe.memblock]
    exact Sat.crcCheckPage_clean (sat.pageBase_mod i) (hx.clean hw)
  refine grip_quiet (fun n w hw => ?_) fun n w hw => ?_
  · dsimp only
    rw [hp]
    dsimp only
    rw [hcheck hw, Sat.report_zero]
    exact ⟨rfl, rfl, rfl, rfl⟩
  · dsimp only
    rw [hp]
    dsimp only
    rw [hcheck hw]
    exact h

theorem grip_checkPageIf {Q : Nat → Grip sat → Prop} {pe : PageEntry} {p : Pattern} (b : Bool)
    (hpe : sat.Mapped pe i) (hp : pe.pattern = some p) (hx : x.Clean i p) (h : Q 0 x) :
    (gripContract sat blank).Follows Q (sat.checkPageIf b pe) x := by
  cases b with
  | true => exact grip_checkPage hpe hp hx h
  | false => exact h

/-! ### Writes to a page -/

theorem writePage_off {hand : Multiset Nat} {mem : Mem} {n a : Nat} {f : Nat → Word64} (hi : i ∈ hand)
    (hn : n ≤ sat.pageWords) (ha : ∀ i ∈ hand, ¬sat.OnPage i a) :
    writeWords mem (sat.pageBase i) n f a = mem a := by
  have hoff := ha i hi
  refine writeWords_of_notMem fun hin => hoff ⟨hin.1, ?_⟩
  omega

/-- A write to page `i` stays on the page. -/
theorem writePage_frame {h : Holding} {w w' : World} {n : Nat} {f : Nat → Word64} (hi : i ∈ h.hand)
    (hn : n ≤ sat.pageWords) (hmem : w'.mem = writeWords w.mem (sat.pageBase i) n f)
    (hfile : w'.file = w.file) (hsocket : w'.socket = w.socket)
    (hmis : w'.miscompares = w.miscompares) : sat.Frame h w w' where
  mem a ha := by rw [hmem, writePage_off hi hn ha]
  file f _ := by rw [hfile]
  sock k _ := by rw [hsocket]
  miscompares := hmis

/-- The other pages keep their words. -/
theorem writePage_other {mem : Mem} {n k : Nat} {f : Nat → Word64} (hij : i ≠ j)
    (hn : n ≤ sat.pageWords) (hk : k < sat.pageWords) :
    writeWords mem (sat.pageBase j) n f (sat.pageBase i + k) = mem (sat.pageBase i + k) := by
  refine writeWords_of_notMem fun hin => hij ((onPage_add hk).unique ⟨hin.1, ?_⟩)
  omega

theorem grip_fillPageRandom {Q : PageEntry × Bool → Grip sat → Prop} {pe : PageEntry}
    (hpe : sat.Mapped pe i) (hi : i ∈ x.holding.hand)
    (hok : ∀ pe' p y, sat.Mapped pe' i → pe'.pattern = some p → y.Clean i p → Q (pe', true) y)
    (hfail : ∀ pe', Q (pe', false) x) :
    (gripContract sat blank).Follows Q (sat.fillPageRandom false pe) x := by
  refine follows_act fun n w hw => ?_
  simp only [Bool.false_eq_true, if_false]
  split
  · exact ⟨x, ⟨.refl _ _, rfl, hw⟩, hfail _⟩
  · next p hp =>
    have hmem : sat.fillPage w.mem pe.memblock p =
        writeWords w.mem (sat.pageBase i) sat.pageWords (sat.fillWord (sat.pageBase i) p) := by
      rw [hpe.memblock, fillPage_eq]
    refine ⟨x.inWorld _, ⟨writePage_frame hi le_rfl hmem rfl rfl rfl, rfl, .refl _ _⟩, ?_⟩
    refine hok _ p _ ⟨hpe.offset, hpe.memblock⟩ rfl (.inWorld hi fun k hk => ?_)
    dsimp only
    rw [hmem, writeWords_apply hk]

/-- **A copy of a clean page** in any of the three modes. -/
theorem grip_copyPage {Q : PageEntry → Grip sat → Prop} {src dst : PageEntry} {p : Pattern}
    (hsrc : sat.Mapped src i) (hp : src.pattern = some p) (hx : x.Clean i p)
    (hdst : sat.Mapped dst j) (hj : j ∈ x.holding.hand) (hij : i ≠ j)
    (htag : sat.tagMode = true → ∀ w, x.know w → Tagged w.mem (sat.pageBase j) sat.pageWords)
    (h : ∀ dst' y, sat.Mapped dst' j → dst'.pattern = some p → y.Clean i p → y.Clean j p → Q dst' y) :
    (gripContract sat blank).Follows Q (sat.copyPage src dst) x := by
  have hcopied (n : Nat) {w w' : World} (hw : x.know w)
      (hw' : w' = { w with
        mem := writeWords w.mem (sat.pageBase j) sat.pageWords (sat.fillWord (sat.pageBase j) p) }) :
      sat.Frame x.holding w w' ∧ Q (({ dst with pattern := src.pattern } : PageEntry).stamp n) (x.inWorld w') := by
    subst hw'
    refine ⟨writePage_frame hj le_rfl rfl rfl rfl rfl,
      h _ _ ⟨hdst.offset, hdst.memblock⟩ hp (.inWorld hx.mem fun k hk => ?_) (.inWorld hj fun k hk => ?_)⟩
    · exact (writePage_other hij le_rfl hk).trans (hx.words w hw k hk)
    · exact writeWords_apply hk
  have hclean {copy : Mem → Nat → Nat → Pattern → Option AddrCrc} (hcopy : sat.CopiesBlock copy)
      (marker : Word64) {w : World} (hw : x.know w) :
      sat.copyPageWith copy marker w.mem dst.memblock src.memblock p =
        ⟨writeWords w.mem (sat.pageBase j) sat.pageWords (sat.fillWord (sat.pageBase j) p), 0, 0⟩ := by
    rw [hdst.memblock, hsrc.memblock]
    exact copyPageWith_clean hcopy marker (sat.pageBase_mod i) (hx.clean hw)
      (sat.pageBase_disjoint (Ne.symm hij)) fun ht => htag ht w hw
  refine grip_act fun n w hw => ?_
  dsimp only
  split
  · rw [hp]
    dsimp only
    rw [crcWarmCopyPage, hclean sat.warmCopyBlock_clean _ hw, report_zero, ← hp]
    exact hcopied n hw rfl
  · split
    · rw [hp]
      dsimp only
      rw [crcCopyPage, hclean sat.copyBlock_clean _ hw, report_zero, ← hp]
      exact hcopied n hw rfl
    · refine hcopied n hw ?_
      rw [hdst.memblock, hsrc.memblock, memcpyPage_clean (hx.clean hw)]

/-! ### Inversion -/

/-- The words of a page after an inversion. -/
def Sat.inverted (sat : Sat) (f : Nat → Word64) (k : Nat) : Word64 :=
  if k < sat.invertRangeBytes / 8 then ~~~f k else f k

theorem Sat.inverted_inverted (sat : Sat) (f : Nat → Word64) : sat.inverted (sat.inverted f) = f := by
  funext k
  simp only [Sat.inverted]
  split <;> simp

theorem Sat.pageBase_pos (sat : Sat) (i : Nat) : 0 < sat.pageBase i := by
  obtain ⟨d, hd⟩ := sat.testmem_dvd
  have hpos := sat.testmem_pos
  rw [Sat.pageBase]
  omega

/-- Both directions invert the same range. -/
theorem invertPage_eq (sat : Sat) (mem : Mem) (i : Nat) :
    sat.invertPageUp mem (sat.pageBase i) =
        some (invertRegion mem (sat.pageBase i) (sat.invertRangeBytes / 8)) ∧
      sat.invertPageDown mem (sat.pageBase i) =
        some (invertRegion mem (sat.pageBase i) (sat.invertRangeBytes / 8)) := by
  obtain ⟨n, hn, -⟩ := sat.invertRangeBytes_eq
  have hrange : sat.invertRangeBytes / 8 = 8 * n := by omega
  rw [invertPageUp, invertPageDown, hn, hrange]
  exact ⟨invertWordsUp_eq (sat.pageBase_pos i), invertWordsDown_eq (sat.pageBase_pos i)⟩

theorem invertRange_le (sat : Sat) : sat.invertRangeBytes / 8 ≤ sat.pageWords := by
  obtain ⟨n, hn, hle⟩ := sat.invertRangeBytes_eq
  omega

theorem grip_invertPage {Q : PageEntry → Grip sat → Prop} {invert : Mem → Nat → Option Mem}
    (hinvert : ∀ mem, invert mem (sat.pageBase i) =
      some (invertRegion mem (sat.pageBase i) (sat.invertRangeBytes / 8)))
    {pe : PageEntry} {f : Nat → Word64} (hpe : sat.Mapped pe i) (hx : x.Page i f)
    (h : ∀ pe' y, sat.Mapped pe' i → pe'.pattern = pe.pattern → y.Page i (sat.inverted f) → Q pe' y) :
    (gripContract sat blank).Follows Q (invertPage invert pe) x := by
  refine grip_act fun n w hw => ?_
  have hle := invertRange_le sat
  dsimp only
  rw [hpe.memblock, hinvert, Option.getD_some]
  refine ⟨⟨fun a ha => ?_, fun _ _ => rfl, fun _ _ => rfl, rfl⟩,
    h _ _ ⟨hpe.offset, hpe.memblock⟩ rfl (.inWorld hx.mem fun k hk => ?_)⟩
  · have hoff := ha i hx.mem
    refine if_neg fun hin => hoff ⟨hin.1, ?_⟩
    omega
  · have hword := hx.words w hw k hk
    by_cases hlt : k < sat.invertRangeBytes / 8
    · rw [Sat.inverted, if_pos hlt, ← hword]
      exact if_pos (by omega)
    · rw [Sat.inverted, if_neg hlt, ← hword]
      exact if_neg (by omega)

/-! ### Files -/

/-- Without tags the words of a pattern are the same on every page. -/
theorem Sat.fillWord_eq (htag : sat.tagMode = false) (base base' : Nat) (p : Pattern) :
    sat.fillWord base p = sat.fillWord base' p := by
  funext k
  rw [fillWord, fillWord, fillData, fillData, htag]
  rfl

/-- The file of a worker holds the pages it has written in this pass, under their sector tags. -/
structure Grip.Blocks (x : Grip sat) (F : FileThread) (pass : Nat) (recs : List PageRec) : Prop where
  file : x.holding.file = some F.file
  known : ∀ r ∈ recs, r.isSome
  words : ∀ w, x.know w → ∀ block p, recs[block]? = some (some p) → ∀ k < sat.pageWords,
    w.file F.file (block * sat.pageWords + k) = sat.sectorWord 0 p F.threadNum block pass k

section File

variable {F : FileThread} {pass block : Nat} {recs : List PageRec}

theorem Grip.Blocks.gain (h : x.Blocks F pass recs) (kind : PageKind) (pattern : Option Pattern) :
    (x.gain blank j kind pattern).Blocks F pass recs where
  file := h.file
  known := h.known
  words w hw := h.words w hw.1

theorem Grip.Blocks.drop (h : x.Blocks F pass recs) : (x.drop j).Blocks F pass recs where
  file := h.file
  known := h.known
  words w hw block p hp k hk := by
    obtain ⟨w₀, hw₀, ha⟩ := hw
    rw [ha.file _ h.file]
    exact h.words w₀ hw₀ block p hp k hk

/-- A step that leaves the file as it is. -/
theorem Grip.Blocks.inWorld (h : x.Blocks F pass recs) {w w' : World} (hw : x.know w)
    (hfile : w'.file = w.file) : (x.inWorld w').Blocks F pass recs where
  file := h.file
  known := h.known
  words v hv block p hp k hk := by
    rw [hv.file _ h.file, hfile]
    exact h.words w hw block p hp k hk

theorem Sat.sectorWord_eq (htag : sat.tagMode = false) (base base' : Nat) (p : Pattern)
    (threadNum block pass : Nat) : sat.sectorWord base p threadNum block pass =
      sat.sectorWord base' p threadNum block pass := by
  funext k
  rw [sectorWord, sectorWord, Sat.fillWord_eq htag base base']

theorem grip_tagSectors {Q : Unit → Grip sat → Prop} {src : PageEntry} {p : Pattern}
    (htag : sat.tagMode = false) (hsrc : sat.Mapped src i) (hx : x.Clean i p)
    (hb : x.Blocks F pass recs)
    (h : ∀ y, y.Page i (sat.sectorWord 0 p F.threadNum block pass) → y.Blocks F pass recs → Q () y) :
    (gripContract sat blank).Follows Q (sat.tagSectors F pass block src) x := by
  refine grip_act fun n w hw => ?_
  have hmem : sat.sectorTagPage w.mem src.memblock F.threadNum block pass =
      writeWords w.mem (sat.pageBase i) sat.pageWords (sat.sectorWord 0 p F.threadNum block pass) := by
    rw [hsrc.memblock, sectorTagPage_clean (hx.clean hw), Sat.sectorWord_eq htag _ 0]
  refine ⟨writePage_frame hx.mem le_rfl hmem rfl rfl rfl,
    h _ (.inWorld hx.mem fun k hk => ?_) (hb.inWorld hw rfl)⟩
  dsimp only
  rw [hmem, writeWords_apply hk]

theorem grip_writePageToFile {Q : Bool → Grip sat → Prop} {src : PageEntry} {p : Pattern}
    (hsrc : sat.Mapped src i) (hx : x.Page i (sat.sectorWord 0 p F.threadNum recs.length pass))
    (hb : x.Blocks F pass recs)
    (hok : ∀ y, i ∈ y.holding.hand → y.Blocks F pass (recs ++ [some p]) → Q true y)
    (hfail : ∀ y, i ∈ y.holding.hand → Q false y) :
    (gripContract sat blank).Follows Q (sat.writePageToFile F recs.length src) x := by
  refine grip_act fun n w hw => ⟨⟨fun _ _ => rfl, fun f hf => ?_, fun _ _ => rfl, rfl⟩, ?_⟩
  · refine Function.update_of_ne ?_ _ _
    rintro rfl
    exact hf hb.file
  · by_cases hchoice : n % (sat.pageWords + 2) = 0
    · simp only [hchoice, if_true, beq_self_eq_true]
      refine hok _ hx.mem ⟨hb.file, fun r hr => ?_, fun v hv block q hq k hk => ?_⟩
      · rcases List.mem_append.mp hr with hr | hr
        · exact hb.known r hr
        · rw [List.mem_singleton.mp hr]
          rfl
      · rw [hv.file _ hb.file]
        dsimp only
        rw [Function.update_self]
        by_cases hlt : block < recs.length
        · -- an earlier block
          rw [List.getElem?_append_left hlt] at hq
          have hmul : (block + 1) * sat.pageWords ≤ recs.length * sat.pageWords :=
            Nat.mul_le_mul_right _ hlt
          rw [Nat.add_mul, Nat.one_mul] at hmul
          rw [writeWords_of_notMem (by omega)]
          exact hb.words w hw block q hq k hk
        · obtain ⟨rfl, rfl⟩ : block = recs.length ∧ q = p := by
            rw [List.getElem?_append_right (by omega)] at hq
            have hzero : block - recs.length = 0 := by
              by_contra hne
              rw [List.getElem?_eq_none (by simp; omega)] at hq
              cases hq
            rw [hzero] at hq
            exact ⟨by omega, by simpa using hq.symm⟩
          rw [writeWords_apply hk, hsrc.memblock]
          exact hx.words w hw k hk
    · simp only [hchoice, if_false]
      have hfalse : (n % (sat.pageWords + 2) == 0) = false := by simpa using hchoice
      rw [hfalse]
      exact hfail _ hx.mem

theorem grip_readPageFromFile {Q : Option PageEntry → Grip sat → Prop} {dst : PageEntry} {p : Pattern}
    (hdst : sat.Mapped dst j) (hj : j ∈ x.holding.hand) (hb : x.Blocks F pass recs)
    (hp : recs[block]? = some (some p))
    (hok : ∀ pe y, sat.Mapped pe j → pe.pattern = dst.pattern →
      y.Page j (sat.sectorWord 0 p F.threadNum block pass) → y.Blocks F pass recs → Q (some pe) y)
    (hfail : ∀ y, j ∈ y.holding.hand → Q none y) :
    (gripContract sat blank).Follows Q (sat.readPageFromFile F block dst) x := by
  refine grip_act fun n w hw => ⟨?_, ?_⟩
  · refine writePage_frame hj ?_ (by rw [hdst.memblock]) rfl rfl rfl
    split
    · exact le_rfl
    · have hlt := Nat.mod_lt n (show 0 < sat.pageWords + 2 by omega)
      omega
  · dsimp only
    split
    · refine hok _ _ ⟨hdst.offset, hdst.memblock⟩ rfl (.inWorld hj fun k hk => ?_) (hb.inWorld hw rfl)
      dsimp only
      rw [hdst.memblock, writeWords_apply hk]
      exact hb.words w hw block p hp k hk
    · exact hfail _ hj

/-- **The way back.** A page that comes from the file is clean once its tags have been checked. -/
theorem grip_sectorValidate {Q : Unit → Grip sat → Prop} {dst : PageEntry} {p : Pattern}
    (htag : sat.tagMode = false) (hdst : sat.Mapped dst j) (hp : dst.pattern = some p)
    (hx : x.Page j (sat.sectorWord 0 p F.threadNum block pass)) (hb : x.Blocks F pass recs)
    (h : ∀ y, y.Clean j p → y.Blocks F pass recs → Q () y) :
    (gripContract sat blank).Follows Q (sat.sectorValidate F pass block dst) x := by
  refine grip_act fun n w hw => ?_
  dsimp only
  rw [hp]
  dsimp only
  rw [hdst.memblock, sectorValidatePage_tagged htag (hx.words w hw), report_zero]
  refine ⟨writePage_frame hx.mem le_rfl rfl rfl rfl rfl,
    h _ (.inWorld hx.mem fun k hk => ?_) (hb.inWorld hw rfl)⟩
  exact writeWords_apply hk

end File

/-! ### Connections -/

/-- The worker knows the pages on its connection. -/
structure Grip.OnWay (x : Grip sat) (sock : Nat) (pages : List (Nat → Word64)) : Prop where
  own : x.holding.sock = some sock
  words : ∀ w, x.know w → List.Forall₂ (fun f g => ∀ k < sat.pageWords, f k = g k) (w.socket sock) pages

section Connection

variable {sock : Nat} {pages : List (Nat → Word64)} {f : Nat → Word64}

theorem Grip.OnWay.gain (h : x.OnWay sock pages) (kind : PageKind) (pattern : Option Pattern) :
    (x.gain blank j kind pattern).OnWay sock pages where
  own := h.own
  words w hw := h.words w hw.1

theorem Grip.OnWay.drop (h : x.OnWay sock pages) : (x.drop j).OnWay sock pages where
  own := h.own
  words w hw := by
    obtain ⟨w₀, hw₀, ha⟩ := hw
    rw [ha.sock _ h.own]
    exact h.words w₀ hw₀

theorem grip_sendPage {Q : Bool → Grip sat → Prop} {src : PageEntry} (hsrc : sat.Mapped src i)
    (hx : x.Page i f) (hj : j ∈ x.holding.hand) (hs : x.OnWay sock [])
    (hok : ∀ y, y.Page i f → j ∈ y.holding.hand → y.OnWay sock [f] → Q true y) (hfail : Q false x) :
    (gripContract sat blank).Follows Q (sendPage sock src) x := by
  refine follows_act fun n w hw => ?_
  dsimp only
  split
  · refine ⟨x.inWorld _, ⟨⟨fun _ _ => rfl, fun _ _ => rfl, fun k hk => ?_, rfl⟩, rfl, .refl _ _⟩,
      hok _ (.inWorld hx.mem fun k hk => hx.words w hw k hk) hj ⟨hs.own, fun v hv => ?_⟩⟩
    · refine Function.update_of_ne ?_ _ _
      rintro rfl
      exact hk hs.own
    · have hempty : w.socket sock = [] := List.forall₂_nil_right_iff.mp (hs.words w hw)
      rw [hv.sock _ hs.own]
      dsimp only
      rw [Function.update_self, hempty, List.nil_append, hsrc.memblock]
      exact .cons (fun k hk => hx.words w hw k hk) .nil
  · exact ⟨x, ⟨.refl _ _, rfl, hw⟩, hfail⟩

theorem grip_receivePage {Q : Option PageEntry → Grip sat → Prop} {dst : PageEntry}
    {g : Nat → Word64} (hdst : sat.Mapped dst j) (hj : j ∈ x.holding.hand) (hij : i ≠ j)
    (hx : x.Page i g) (hs : x.OnWay sock [f])
    (hok : ∀ pe y, sat.Mapped pe j → pe.pattern = dst.pattern → y.Page i g → y.Page j f →
      y.OnWay sock [] → Q (some pe) y)
    (hfail : ∀ y, y.Page i g → j ∈ y.holding.hand → Q none y) :
    (gripContract sat blank).Follows Q (sat.receivePage sock dst) x := by
  refine grip_act fun n w hw => ?_
  obtain ⟨page, rest, hpage, hrest, hsocket⟩ := List.forall₂_cons_right_iff.mp (hs.words w hw)
  obtain rfl := List.forall₂_nil_right_iff.mp hrest
  dsimp only
  rw [hsocket]
  dsimp only
  have hother {n : Nat} (hn : n ≤ sat.pageWords) {k : Nat} (hk : k < sat.pageWords) :
      writeWords w.mem dst.memblock n page (sat.pageBase i + k) = g k := by
    rw [hdst.memblock, writePage_other hij hn hk]
    exact hx.words w hw k hk
  split
  · refine ⟨⟨?_, fun _ _ => rfl, fun k hk => ?_, rfl⟩, hok _ _ ⟨hdst.offset, hdst.memblock⟩ rfl
      (.inWorld hx.mem fun k hk => hother le_rfl hk) (.inWorld hj fun k hk => ?_) ⟨hs.own, fun v hv => ?_⟩⟩
    · intro a ha
      dsimp only
      rw [hdst.memblock, writePage_off hj le_rfl ha]
    · refine Function.update_of_ne ?_ _ _
      rintro rfl
      exact hk hs.own
    · dsimp only
      rw [hdst.memblock, writeWords_apply hk]
      exact hpage k hk
    · rw [hv.sock _ hs.own]
      dsimp only
      rw [Function.update_self]
      exact .nil
  · have hle : n % (sat.pageWords + 2) - 1 ≤ sat.pageWords := by
      have hlt := Nat.mod_lt n (show 0 < sat.pageWords + 2 by omega)
      omega
    exact ⟨writePage_frame hj hle (by rw [hdst.memblock]) rfl rfl rfl,
      hfail _ (.inWorld hx.mem fun k hk => hother hle hk) hj⟩

end Connection

end Rules

/-! ## The loops -/

/-- What a worker has and knows between two passes. -/
def GripReady (sat : Sat) (blank : Bool) : Job → Grip sat → Prop
  | .fill presetOnly _, _ => presetOnly = false
  | .copy _, _ => sat.tagMode = true → blank = false
  | .openFile F, x | .file F _, x => sat.tagMode = false ∧ x.holding.file = some F.file
  | .connect sock, x | .network sock, x => sat.tagMode = false ∧ x.OnWay sock []
  | _, _ => True

def GripEnds (sat : Sat) (blank : Bool) : Turn Job → Grip sat → Prop :=
  Turn.Ends (GripReady sat blank) fun _ _ => True

section Loops

variable {sat : Sat} {blank : Bool} {x : Grip sat} {i : Nat}

theorem grip_exit (b : Bool) : (gripContract sat blank).Follows (GripEnds sat blank) (pure (.exit b)) x :=
  trivial

/-- The end of a pass: the loop goes round again, or the worker ends. -/
theorem grip_exitIf {c : Prop} [Decidable c] {job : Job} {b : Bool} (h : GripReady sat blank job x) :
    (gripContract sat blank).Follows (GripEnds sat blank)
      (if c then pure (.exit b) else pure (.again job)) x :=
  follows_ite (fun _ => grip_exit b) fun _ => h

theorem grip_againIf {c : Prop} [Decidable c] {job : Job} {b : Bool} (h : GripReady sat blank job x) :
    (gripContract sat blank).Follows (GripEnds sat blank)
      (if c then pure (.again job) else pure (.exit b)) x :=
  follows_ite (fun _ => h) fun _ => grip_exit b

theorem grip_fillThreadWork (left : Nat) :
    (gripContract sat blank).Follows (GripEnds sat blank) (sat.fillThreadWork false left) x := by
  refine follows_bind (Q := fun _ y => y = x) (grip_look fun _ => rfl) ?_
  rintro ready x rfl
  refine follows_ite (fun _ => grip_exit true) fun _ => ?_
  refine follows_bind (Q := onOption (fun pe y => ∃ i, sat.Mapped pe i ∧ i ∈ y.holding.hand) fun _ => True)
    (grip_getEmpty (fun pe i _ hpe _ => ⟨i, hpe, Multiset.mem_cons_self _ _⟩) trivial) ?_
  rintro (_ | pe) y hy
  · exact grip_exit false
  · obtain ⟨i, hpe, hi⟩ := hy
    refine follows_bind (Q := fun r y => r.2 = true → ∃ p, sat.Mapped r.1 i ∧ r.1.pattern = some p ∧
      y.Clean i p) (grip_fillPageRandom hpe hi (fun pe' p y hpe' hp hy _ => ⟨p, hpe', hp, hy⟩)
        fun pe' hfalse => by cases hfalse) ?_
    rintro ⟨pe', filled⟩ y hy
    cases filled with
    | false => exact grip_exit false
    | true =>
        obtain ⟨p, hpe', hp, hclean⟩ := hy rfl
        refine follows_bind (Q := fun _ z => z = y) ?_ ?_
        · refine follows_bind (Q := fun _ z => z = y) (grip_look fun _ => rfl) ?_
          rintro stop z rfl
          exact grip_checkPageIf _ hpe' hp hclean rfl
        · rintro errors z rfl
          refine follows_bind (Q := fun _ _ => True) (grip_putValid hpe' hp hclean trivial trivial) ?_
          exact fun _ _ _ => grip_exitIf rfl

theorem grip_copyThreadWork {tag : Word32} (hready : sat.tagMode = true → blank = false) :
    (gripContract sat blank).Follows (GripEnds sat blank) (sat.copyThreadWork tag) x := by
  refine follows_bind (Q := fun _ y => y = x) (grip_keepRunning _ fun _ => rfl) ?_
  rintro running x rfl
  refine follows_ite (fun _ => grip_exit true) fun _ => ?_
  refine follows_bind (Q := onOption (fun src y => ∃ i p, sat.Mapped src i ∧ src.pattern = some p ∧
    y.Clean i p) fun _ => True)
    (grip_getValid (fun src i p y hsrc hp _ _ hy => ⟨i, p, hsrc, hp, hy⟩) trivial) ?_
  rintro (_ | src) y hy
  · exact grip_exit false
  · obtain ⟨i, p, hsrc, hp, hclean⟩ := hy
    refine follows_bind (Q := onOption (fun dst z => ∃ j, sat.Mapped dst j ∧ i ≠ j ∧
      j ∈ z.holding.hand ∧ z.Clean i p ∧ (sat.tagMode = true → ∀ w, z.know w →
        Tagged w.mem (sat.pageBase j) sat.pageWords)) (· = y)) (grip_getEmpty ?_ rfl) ?_
    · intro dst j pattern hdst hj
      refine ⟨j, hdst, ?_, Multiset.mem_cons_self _ _, hclean.gain j _ _, fun htag w hw =>
        hw.2 htag (hready htag)⟩
      rintro rfl
      exact hj hclean.mem
    · rintro (_ | dst) z hz
      · obtain rfl : z = y := hz
        exact follows_bind (Q := fun _ _ => True) (grip_putValid hsrc hp hclean trivial trivial)
          fun _ _ _ => grip_exit false
      · obtain ⟨j, hdst, hij, hj, hclean, htagged⟩ := hz
        refine follows_bind (Q := fun dst u => sat.Mapped dst j ∧ dst.pattern = some p ∧ u.Clean i p ∧
          u.Clean j p) (grip_copyPage hsrc hp hclean hdst hj hij htagged
            fun dst' u hdst' hp' hu hu' => ⟨hdst', hp', hu, hu'⟩) ?_
        rintro dst u ⟨hdst, hp', hsrcClean, hdstClean⟩
        refine follows_bind (Q := fun _ v => v = u) (grip_checkPageIf _ hdst hp' hdstClean rfl) ?_
        rintro errors u rfl
        refine follows_bind (Q := fun _ v => v.Clean i p)
          (grip_putValid hdst hp' hdstClean (hsrcClean.drop hij) hsrcClean) ?_
        intro dstReturned v hv
        refine follows_bind (Q := fun _ _ => True) (grip_putEmpty hsrc hv.mem
          (fun htag _ w hw => (hv.clean hw).tagged htag) trivial trivial) ?_
        exact fun _ _ _ => grip_againIf hready

theorem grip_invertThreadWork :
    (gripContract sat blank).Follows (GripEnds sat blank) sat.invertThreadWork x := by
  refine follows_bind (Q := fun _ y => y = x) (grip_keepRunning _ fun _ => rfl) ?_
  rintro running x rfl
  refine follows_ite (fun _ => grip_exit true) fun _ => ?_
  refine follows_bind (Q := onOption (fun src y => ∃ i p, sat.Mapped src i ∧ src.pattern = some p ∧
    y.Clean i p) fun _ => True)
    (grip_getValid (fun src i p y hsrc hp _ _ hy => ⟨i, p, hsrc, hp, hy⟩) trivial) ?_
  rintro (_ | src) y hy
  · exact grip_exit false
  · obtain ⟨i, p, hsrc, hp, hclean⟩ := hy
    have hinvert {pe : PageEntry} {f : Nat → Word64} {y : Grip sat}
        {invert : Mem → Nat → Option Mem} {Q : Turn Job → Grip sat → Prop} {c : PageEntry → Work (Turn Job)}
        (hpage : ∀ mem, invert mem (sat.pageBase i) =
          some (invertRegion mem (sat.pageBase i) (sat.invertRangeBytes / 8)))
        (hpe : sat.Mapped pe i) (hpattern : pe.pattern = some p) (hy : y.Page i f)
        (hc : ∀ pe' z, sat.Mapped pe' i → pe'.pattern = some p → z.Page i (sat.inverted f) →
          (gripContract sat blank).Follows Q (c pe') z) :
        (gripContract sat blank).Follows Q (invertPage invert pe >>= c) y :=
      follows_bind (Q := fun pe' z => sat.Mapped pe' i ∧ pe'.pattern = some p ∧ z.Page i (sat.inverted f))
        (grip_invertPage hpage hpe hy fun pe' z hpe' hp' hz => ⟨hpe', hp'.trans hpattern, hz⟩)
        fun pe' z h => hc pe' z h.1 h.2.1 h.2.2
    have hup := fun mem => (invertPage_eq sat mem i).1
    have hdown := fun mem => (invertPage_eq sat mem i).2
    refine follows_bind (Q := fun _ z => z = y) (grip_checkPageIf _ hsrc hp hclean rfl) ?_
    rintro errors y rfl
    refine hinvert hup hsrc hp hclean fun src₁ y₁ hsrc₁ hp₁ h₁ => ?_
    refine hinvert hdown hsrc₁ hp₁ h₁ fun src₂ y₂ hsrc₂ hp₂ h₂ => ?_
    refine hinvert hdown hsrc₂ hp₂ h₂ fun src₃ y₃ hsrc₃ hp₃ h₃ => ?_
    refine hinvert hup hsrc₃ hp₃ h₃ fun src₄ y₄ hsrc₄ hp₄ h₄ => ?_
    rw [inverted_inverted, inverted_inverted] at h₄
    refine follows_bind (Q := fun _ z => z = y₄) (grip_checkPageIf _ hsrc₄ hp₄ h₄ rfl) ?_
    rintro errors z rfl
    refine follows_bind (Q := fun _ _ => True) (grip_putValid hsrc₄ hp₄ h₄ trivial trivial) ?_
    exact fun _ _ _ => grip_againIf trivial

/-- A clean page goes back as either kind. -/
theorem grip_putPage {empty : Bool} {pe : PageEntry} {p : Pattern} (hpe : sat.Mapped pe i)
    (hp : pe.pattern = some p) (hx : x.Clean i p) :
    (gripContract sat blank).Follows (fun _ _ => True) (putPage empty pe) x :=
  follows_ite
    (fun _ => grip_putEmpty hpe hx.mem (fun htag _ _ hw => (hx.clean hw).tagged htag) trivial trivial)
    fun _ => grip_putValid hpe hp hx trivial trivial

theorem grip_checkThreadWork (finalCheck : Bool) :
    (gripContract sat blank).Follows (GripEnds sat blank) (sat.checkThreadWork finalCheck) x := by
  refine follows_bind (Q := fun _ y => y = x) (grip_look fun _ => rfl) ?_
  rintro stop x rfl
  refine follows_ite (fun _ => grip_exit true) fun _ => ?_
  refine follows_bind (Q := fun _ y => y = x) (grip_look fun _ => rfl) ?_
  rintro ready x rfl
  refine follows_ite (fun _ => grip_exit true) fun _ => ?_
  refine follows_bind (Q := onOption (fun pe y => ∃ i p, sat.Mapped pe i ∧ pe.pattern = some p ∧
    y.Clean i p) fun _ => True)
    (grip_getValid (fun pe i p y hpe hp _ _ hy => ⟨i, p, hpe, hp, hy⟩) trivial) ?_
  rintro (_ | pe) y hy
  · exact follows_bind (Q := fun _ _ => True) (grip_look fun _ => trivial) fun _ _ _ => grip_exit _
  · obtain ⟨i, p, hpe, hp, hclean⟩ := hy
    refine follows_bind (Q := fun _ z => z = y) (grip_checkPage hpe hp hclean rfl) ?_
    rintro errors y rfl
    refine follows_bind (Q := fun _ z => z = y) (grip_look fun _ => rfl) ?_
    rintro ready y rfl
    refine follows_bind (Q := fun _ z => z = y) (grip_look fun _ => rfl) ?_
    rintro stop y rfl
    refine follows_bind (grip_putPage hpe hp hclean) ?_
    exact fun _ _ _ => grip_againIf trivial

theorem grip_writePages {F : FileThread} {pass : Nat} (htag : sat.tagMode = false) (n : Nat)
    {recs : List PageRec} (hb : x.Blocks F pass recs) :
    (gripContract sat blank).Follows (onOption (fun all y => y.Blocks F pass all) fun _ => True)
      (sat.writePages F pass n recs.length recs) x := by
  induction n generalizing recs x with
  | zero =>
      refine grip_quiet (fun _ _ _ => ⟨rfl, rfl, rfl, rfl⟩) fun n w _ => ?_
      dsimp only
      split
      · exact hb
      · trivial
  | succ n ih =>
      refine follows_bind (Q := onOption (fun src y => ∃ i p, sat.Mapped src i ∧ src.pattern = some p ∧
        y.Clean i p ∧ y.Blocks F pass recs) fun _ => True) (grip_getValid ?_ trivial) ?_
      · rintro src i p y hsrc hp - rfl hy
        exact ⟨i, p, hsrc, hp, hy, hb.gain _ _⟩
      · rintro (_ | src) y hy
        · trivial
        · obtain ⟨i, p, hsrc, hp, hclean, hb⟩ := hy
          refine follows_bind (Q := fun _ z => z = y) (grip_checkPageIf _ hsrc hp hclean rfl) ?_
          rintro errors y rfl
          refine follows_bind (Q := fun _ z => z.Page i (sat.sectorWord 0 p F.threadNum recs.length pass) ∧
            z.Blocks F pass recs) (grip_tagSectors htag hsrc hclean hb fun z hz hbz => ⟨hz, hbz⟩) ?_
          rintro - z ⟨hz, hbz⟩
          refine follows_bind (Q := fun ok u => i ∈ u.holding.hand ∧
            (ok = true → u.Blocks F pass (recs ++ [some p])))
            (grip_writePageToFile hsrc hz hbz (fun u hi hu => ⟨hi, fun _ => hu⟩)
              fun u hi => ⟨hi, fun hfalse => by cases hfalse⟩) ?_
          rintro written u ⟨hi, hu⟩
          refine follows_bind (Q := fun _ v => written = true → v.Blocks F pass (recs ++ [some p]))
            (grip_putEmpty hsrc hi (fun ht => by rw [htag] at ht; cases ht)
              (fun hw => (hu hw).drop) hu) ?_
          intro put v hv
          refine follows_ite (fun hboth => ?_) fun _ => trivial
          rw [Bool.and_eq_true] at hboth
          have hlen : recs.length + 1 = (recs ++ [some p]).length := by simp
          rw [hlen, hp]
          exact ih (hv hboth.2)

theorem grip_readPages {F : FileThread} {pass : Nat} (htag : sat.tagMode = false)
    {all recs : List PageRec} {k : Nat} (hrecs : all.drop k = recs) (hb : x.Blocks F pass all) :
    (gripContract sat blank).Follows (fun read y => read = true → y.holding.file = some F.file)
      (sat.readPages F pass k recs) x := by
  induction recs generalizing k x with
  | nil => exact fun _ => hb.file
  | cons r recs ih =>
      have hget : all[k]? = some r := by
        rw [← List.head?_drop, hrecs, List.head?_cons]
      obtain ⟨p, rfl⟩ := Option.isSome_iff_exists.mp (hb.known r (List.mem_of_getElem? hget))
      have hrest : all.drop (k + 1) = recs := by rw [← List.tail_drop, hrecs, List.tail_cons]
      refine follows_bind (Q := onOption (fun dst y => ∃ j, sat.Mapped dst j ∧ j ∈ y.holding.hand ∧
        y.Blocks F pass all) fun _ => True) (grip_getEmpty (fun dst j pattern hdst _ =>
          ⟨j, hdst, Multiset.mem_cons_self _ _, hb.gain _ _⟩) trivial) ?_
      rintro (_ | dst) y hy
      · exact fun hfalse => by cases hfalse
      · obtain ⟨j, hdst, hj, hb⟩ := hy
        have hdst' : sat.Mapped { dst with pattern := some p } j := ⟨hdst.offset, hdst.memblock⟩
        refine follows_bind (Q := onOption (fun pe (z : Grip sat) => sat.Mapped pe j ∧ pe.pattern = some p ∧
            z.Page j (sat.sectorWord 0 p F.threadNum k pass) ∧ z.Blocks F pass all)
            fun (z : Grip sat) => j ∈ z.holding.hand)
          (grip_readPageFromFile hdst' hj hb hget (fun pe z hpe hp hz hbz => ⟨hpe, hp, hz, hbz⟩)
            fun z hz => hz) ?_
        rintro (_ | pe) z hz
        · refine follows_bind (Q := fun _ _ => True)
            (grip_putEmpty hdst' hz (fun ht => by rw [htag] at ht; cases ht) trivial trivial) ?_
          exact fun _ _ _ hfalse => by cases hfalse
        · obtain ⟨hpe, hp, hz, hbz⟩ := hz
          refine follows_bind (Q := fun _ u => u.Clean j p ∧ u.Blocks F pass all)
            (grip_sectorValidate htag hpe hp hz hbz fun u hu hbu => ⟨hu, hbu⟩) ?_
          rintro - u ⟨hu, hbu⟩
          refine follows_bind (Q := fun _ v => v = u) (grip_checkPageIf _ hpe hp hu rfl) ?_
          rintro errors u rfl
          refine follows_bind (Q := fun _ v => v.Blocks F pass all)
            (grip_putValid hpe hp hu hbu.drop hbu) ?_
          intro put v hv
          refine follows_ite (fun _ hfalse => by cases hfalse) fun _ => ?_
          refine follows_bind (ih hrest hv) fun rest u hu => ?_
          intro hboth
          rw [Bool.and_eq_true] at hboth
          exact hu hboth.2

theorem grip_fileThreadWork {F : FileThread} {pass : Nat} (htag : sat.tagMode = false)
    (hfile : x.holding.file = some F.file) :
    (gripContract sat blank).Follows (GripEnds sat blank) (sat.fileThreadWork F pass) x := by
  refine follows_bind (Q := fun _ y => y = x) (grip_keepRunning _ fun _ => rfl) ?_
  rintro running x rfl
  refine follows_ite (fun _ => grip_exit true) fun _ => ?_
  have hb : x.Blocks F pass [] :=
    ⟨hfile, fun r hr => absurd hr List.not_mem_nil, fun _ _ block p hp => by cases hp⟩
  refine follows_bind (grip_writePages htag sat.diskPages hb) ?_
  rintro (_ | recs) y hy
  · exact grip_exit true
  · refine follows_bind (grip_readPages htag (k := 0) rfl hy) fun read z hz => ?_
    exact follows_ite (fun hread => ⟨htag, hz hread⟩) fun _ => grip_exit true

theorem grip_returnPages {src dst : PageEntry} {p : Pattern} {j : Nat} (htag : sat.tagMode = false)
    (hsrc : sat.Mapped src i) (hp : src.pattern = some p) (hx : x.Clean i p) (hdst : sat.Mapped dst j)
    (hj : j ∈ x.holding.hand) (hij : i ≠ j) :
    (gripContract sat blank).Follows (GripEnds sat blank) (returnPages src dst) x := by
  refine follows_bind (Q := fun _ y => j ∈ y.holding.hand) (grip_putValid hsrc hp hx
    ((Multiset.mem_erase_of_ne (Ne.symm hij)).mpr hj) hj) fun srcReturned y hy => ?_
  refine follows_bind (Q := fun _ _ => True)
    (grip_putEmpty hdst hy (fun ht => by rw [htag] at ht; cases ht) trivial trivial) ?_
  exact fun _ _ _ => grip_exit false

theorem grip_networkThreadWork {sock : Nat} (htag : sat.tagMode = false) (hs : x.OnWay sock []) :
    (gripContract sat blank).Follows (GripEnds sat blank) (sat.networkThreadWork sock) x := by
  refine follows_bind (Q := fun _ y => y = x) (grip_keepRunning _ fun _ => rfl) ?_
  rintro running x rfl
  refine follows_ite (fun _ => grip_exit true) fun _ => ?_
  refine follows_bind (Q := onOption (fun src y => ∃ i p, sat.Mapped src i ∧ src.pattern = some p ∧
    y.Clean i p ∧ y.OnWay sock []) fun _ => True) (grip_getValid ?_ trivial) ?_
  · rintro src i p y hsrc hp - rfl hy
    exact ⟨i, p, hsrc, hp, hy, hs.gain _ _⟩
  · rintro (_ | src) y hy
    · exact grip_exit false
    · obtain ⟨i, p, hsrc, hp, hclean, hs⟩ := hy
      refine follows_bind (Q := onOption (fun dst z => ∃ j, sat.Mapped dst j ∧ i ≠ j ∧
        j ∈ z.holding.hand ∧ z.Clean i p ∧ z.OnWay sock []) (· = y)) (grip_getEmpty ?_ rfl) ?_
      · intro dst j pattern hdst hj
        refine ⟨j, hdst, ?_, Multiset.mem_cons_self _ _, hclean.gain j _ _, hs.gain _ _⟩
        rintro rfl
        exact hj hclean.mem
      · rintro (_ | dst) z hz
        · obtain rfl : z = y := hz
          exact follows_bind (Q := fun _ _ => True) (grip_putValid hsrc hp hclean trivial trivial)
            fun _ _ _ => grip_exit false
        · obtain ⟨j, hdst, hij, hj, hclean, hs⟩ := hz
          refine follows_bind (Q := fun _ u => u = z) (grip_checkPageIf _ hsrc hp hclean rfl) ?_
          rintro errors z rfl
          refine follows_bind (Q := fun sent u => u.Clean i p ∧ j ∈ u.holding.hand ∧
            (sent = true → u.OnWay sock [sat.fillWord (sat.pageBase i) p]))
            (grip_sendPage hsrc hclean hj hs (fun u hu hju hsu => ⟨hu, hju, fun _ => hsu⟩)
              ⟨hclean, hj, fun hfalse => by cases hfalse⟩) ?_
          rintro (_ | _) u ⟨hu, hju, hsu⟩
          · exact grip_returnPages htag hsrc hp hu hdst hju hij
          · have hdst' : sat.Mapped { dst with pattern := src.pattern } j := ⟨hdst.offset, hdst.memblock⟩
            refine follows_bind (Q := fun r v => v.Clean i p ∧ onOption (fun pe (v : Grip sat) =>
                sat.Mapped pe j ∧ pe.pattern = some p ∧ v.Clean j p ∧ v.OnWay sock [])
                (fun (v : Grip sat) => j ∈ v.holding.hand) r v)
              (grip_receivePage hdst' hju hij hu (hsu rfl) ?_ fun v hv hjv => ⟨hv, hjv⟩) ?_
            · intro pe v hpe hpattern hv hvj hsv
              rw [fillWord_eq htag _ (sat.pageBase j)] at hvj
              exact ⟨hv, hpe, hpattern.trans hp, hvj, hsv⟩
            · rintro (_ | pe) v ⟨hv, hvj⟩
              · exact grip_returnPages htag hsrc hp hv hdst' hvj hij
              · obtain ⟨hpe, hp', hvj, hsv⟩ := hvj
                refine follows_bind (Q := fun _ t => t = v) (grip_checkPageIf _ hpe hp' hvj rfl) ?_
                rintro errors v rfl
                refine follows_bind (Q := fun _ t => i ∈ t.holding.hand ∧ t.OnWay sock [])
                  (grip_putValid hpe hp' hvj ⟨(hv.drop hij).mem, hsv.drop⟩ ⟨hv.mem, hsv⟩) ?_
                rintro dstReturned t ⟨hi, hst⟩
                refine follows_bind (Q := fun _ t => t.OnWay sock [])
                  (grip_putEmpty hsrc hi (fun ht => by rw [htag] at ht; cases ht) hst.drop hst) ?_
                exact fun _ t hst => grip_againIf ⟨htag, hst⟩

theorem grip_splitWork (k : Nat) :
    (gripContract sat blank).Follows (GripEnds sat blank) (sat.splitWork k) x := by
  refine follows_ite (fun _ => grip_exit true) fun _ => ?_
  refine follows_bind (Q := onOption (fun pe y => ∃ i p, sat.Mapped pe i ∧ pe.pattern = some p ∧
    y.Clean i p) fun _ => True)
    (grip_getValid (fun pe i p y hpe hp _ _ hy => ⟨i, p, hpe, hp, hy⟩) trivial) ?_
  rintro (_ | pe) y hy
  · exact grip_exit false
  · obtain ⟨i, p, hpe, hp, hclean⟩ := hy
    refine follows_bind (Q := fun pe' z => z = y ∧ sat.Mapped pe' i ∧ pe'.pattern = some p)
      (grip_quiet (fun _ _ _ => ⟨rfl, rfl, rfl, rfl⟩)
        fun _ _ _ => ⟨rfl, ⟨hpe.offset, hpe.memblock⟩, hp⟩) ?_
    rintro pe' y ⟨rfl, hpe', hp'⟩
    exact follows_bind (grip_putPage hpe' hp' hclean) fun _ _ _ => trivial

/-- **Every loop keeps the promises.** -/
theorem grip_body {job : Job} (h : GripReady sat blank job x) :
    (gripContract sat blank).Follows (GripEnds sat blank) (sat.body job) x := by
  cases job with
  | fill presetOnly left =>
      obtain rfl : presetOnly = false := h
      exact grip_fillThreadWork left
  | copy tag => exact grip_copyThreadWork h
  | invert => exact grip_invertThreadWork
  | check finalCheck => exact grip_checkThreadWork finalCheck
  | openFile F =>
      refine grip_quiet (fun _ _ _ => ⟨rfl, rfl, rfl, rfl⟩) fun n _ _ => ?_
      dsimp only
      split
      · exact h
      · trivial
  | file F pass => exact grip_fileThreadWork h.1 h.2
  | connect sock =>
      refine follows_bind (Q := fun _ y => y = x) (grip_look fun _ => rfl) ?_
      rintro stop x rfl
      refine follows_ite (fun _ => grip_exit true) fun _ => ?_
      refine grip_quiet (fun _ _ _ => ⟨rfl, rfl, rfl, rfl⟩) fun n _ _ => ?_
      dsimp only
      split
      · exact h
      · trivial
  | network sock => exact grip_networkThreadWork h.1 h.2
  | split i => exact grip_splitWork i

end Loops

end StressAppTest
