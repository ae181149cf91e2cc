import Mathlib
import StressAppTest.Pattern
import StressAppTest.Library.Decimal

/-!
# The `-P` list (`PatternList::SetPatternSequence`)

The list is split at its commas by hand, each item is read as an id or looked up by its name, and
nothing is stored until the last item has been accepted. The grammar is `PatternList.Selects`: the
text of an item is the decimal number of a pattern in the list, or its full name in any case.

The names of the program's patterns start with a letter and no two of them are the same, so that an
item that is a number is no name and there is at most one pattern to an item (`selectorId_eq_iff`).
-/

namespace StressAppTest.PatternList

/-! ## `SetPatternSequence` -/

/-- The text of a string up to its first NUL, as `c_str()` is read. -/
def cStr (text : List Char) : List Char := text.takeWhile (· ≠ '\x00')

/-- `strcasecmp(a, b) == 0` -/
def sameCaseless (a b : List Char) : Bool := a.map Char.toLower == b.map Char.toLower

/-- The characters of `" \t"`. -/
def isBlank (c : Char) : Bool := c == ' ' || c == '\t'

/-- From the first to the last character that is not blank. -/
def trim (selector : List Char) : List Char := (selector.dropWhile isBlank).rdropWhile isBlank

/-- The pattern of a trimmed item: an id in the list, or the first pattern of this name. -/
def selectorId (l : PatternList) (selector : List Char) : Option Nat :=
  let r := Text.strtol10 (cStr selector)
  if r.errno = false ∧ r.endPos ≠ 0 ∧ (cStr selector).drop r.endPos = [] then
    if r.value < 0 ∨ 2 ^ 31 - 1 < r.value ∨ (l.patterns.length : Int) ≤ r.value then none
    else some r.value.toNat
  else l.patterns.findIdx? fun p => sameCaseless (cStr selector) p.name.toList

theorem le_of_findFrom {needle text : List Char} {pos i : Nat}
    (h : Text.findFrom needle text pos = some i) : pos ≤ i ∧ pos ≤ text.length := by
  rw [Text.findFrom] at h
  split at h
  · cases h
  · next hpos =>
    obtain ⟨j, -, rfl⟩ := Option.map_eq_some_iff.mp h
    exact ⟨Nat.le_add_right pos j, by omega⟩

/-- The item that starts here, up to the next comma. -/
def itemAt (selectors : List Char) (start : Nat) : Option Nat → List Char
  | none => selectors.drop start
  | some comma => (selectors.drop start).take (comma - start)

/-- The loop over the items, with the ids of the items before `start`. -/
def parseSelectors (l : PatternList) (selectors : List Char) (start : Nat) (ids : List Nat) :
    Option (List Nat) :=
  if start ≤ selectors.length then
    let selector := itemAt selectors start (Text.findFrom [','] selectors start)
    if selector.all isBlank then none
    else
      match l.selectorId (trim selector) with
      | none => none
      | some id =>
          match _hcomma : Text.findFrom [','] selectors start with
          | none => some (ids ++ [id])
          | some comma => parseSelectors l selectors (comma + 1) (ids ++ [id])
  else some ids
termination_by selectors.length + 1 - start
decreasing_by
  have hle := (le_of_findFrom _hcomma).1
  omega

/-! ## The items -/

/-- What the loop makes of an item. -/
def parseItem (l : PatternList) (item : List Char) : Option Nat :=
  if item.all isBlank then none else l.selectorId (trim item)

/-- The last item. -/
theorem parseSelectors_last (l : PatternList) {selectors : List Char} {start : Nat} (ids : List Nat)
    (hstart : start ≤ selectors.length) (hcomma : Text.findFrom [','] selectors start = none) :
    l.parseSelectors selectors start ids =
      (l.parseItem (itemAt selectors start none)).map fun id => ids ++ [id] := by
  rw [parseSelectors, if_pos hstart, parseItem]
  simp only [hcomma]
  split
  · rfl
  · split
    · next hid => rw [hid, Option.map_none]
    · next id hid =>
      rw [hid, Option.map_some]
      split
      · rfl
      · next heq =>
        rw [hcomma] at heq
        cases heq

/-- An item before a comma. -/
theorem parseSelectors_comma (l : PatternList) {selectors : List Char} {start comma : Nat}
    (ids : List Nat) (hstart : start ≤ selectors.length)
    (hcomma : Text.findFrom [','] selectors start = some comma) :
    l.parseSelectors selectors start ids =
      (l.parseItem (itemAt selectors start (some comma))).bind fun id =>
        l.parseSelectors selectors (comma + 1) (ids ++ [id]) := by
  rw [parseSelectors, if_pos hstart, parseItem]
  simp only [hcomma]
  split
  · rfl
  · split
    · next hid => rw [hid, Option.bind_none]
    · next id hid =>
      rw [hid, Option.bind_some]
      split
      · next heq =>
        rw [hcomma] at heq
        cases heq
      · next comma' heq =>
        rw [hcomma, Option.some.injEq] at heq
        rw [heq]

theorem find_comma {a : List Char} (ha : ',' ∉ a) (b : List Char) :
    Text.find [','] (a ++ ',' :: b) = some a.length := by
  induction a with
  | nil => rfl
  | cons c a ih =>
      have hc : c ≠ ',' := fun h => ha (h ▸ List.mem_cons_self)
      rw [List.cons_append, Text.find, if_neg (by simpa using hc.symm),
        ih fun h => ha (List.mem_cons_of_mem c h)]
      rfl

theorem find_comma_none {a : List Char} (ha : ',' ∉ a) : Text.find [','] a = none := by
  induction a with
  | nil => rfl
  | cons c a ih =>
      have hc : c ≠ ',' := fun h => ha (h ▸ List.mem_cons_self)
      rw [Text.find, if_neg (by simpa using hc.symm), ih fun h => ha (List.mem_cons_of_mem c h)]
      rfl

theorem findFrom_length (needle pre text : List Char) :
    Text.findFrom needle (pre ++ text) pre.length = (Text.find needle text).map (pre.length + ·) := by
  rw [Text.findFrom, if_neg (by simp), List.drop_left]

/-- The loop reads the items between the commas. -/
theorem parseSelectors_eq (l : PatternList) (pre text : List Char) (ids : List Nat) :
    l.parseSelectors (pre ++ text) pre.length ids =
      ((text.splitOn ',').mapM l.parseItem).map (ids ++ ·) := by
  induction hlen : text.length using Nat.strongRecOn generalizing pre text ids with
  | ind n ih =>
      have hstart : pre.length ≤ (pre ++ text).length := by simp
      by_cases hmem : ',' ∈ text
      · obtain ⟨a, b, rfl, ha⟩ := List.eq_append_cons_of_mem hmem
        have hfind : Text.findFrom [','] (pre ++ (a ++ ',' :: b)) pre.length =
            some (pre.length + a.length) := by
          rw [findFrom_length, find_comma ha]
          rfl
        have hitem : itemAt (pre ++ (a ++ ',' :: b)) pre.length (some (pre.length + a.length)) = a := by
          rw [itemAt, List.drop_left, Nat.add_sub_cancel_left, List.take_left]
        have hrest (id : Nat) : l.parseSelectors (pre ++ (a ++ ',' :: b)) (pre.length + a.length + 1)
            (ids ++ [id]) = ((b.splitOn ',').mapM l.parseItem).map ((ids ++ [id]) ++ ·) := by
          have hnext := ih b.length (by simp at hlen; omega) (pre ++ a ++ [',']) b (ids ++ [id]) rfl
          simpa [Nat.add_assoc] using hnext
        rw [parseSelectors_comma l ids hstart hfind, hitem, List.splitOn_append_cons_self_of_not_mem ha,
          List.mapM_cons]
        cases l.parseItem a with
        | none => rfl
        | some id =>
            rw [Option.bind_some, hrest]
            cases (b.splitOn ',').mapM l.parseItem with
            | none => rfl
            | some rest => simp
      · have hfind : Text.findFrom [','] (pre ++ text) pre.length = none := by
          rw [findFrom_length, find_comma_none hmem]
          rfl
        have hitem : itemAt (pre ++ text) pre.length none = text := by rw [itemAt, List.drop_left]
        rw [parseSelectors_last l ids hstart hfind, hitem, List.splitOn_eq_singleton hmem,
          List.mapM_cons]
        cases l.parseItem text with
        | none => rfl
        | some id => rfl

theorem mapM_eq_some_iff {f : List Char → Option Nat} {items : List (List Char)} {ids : List Nat} :
    items.mapM f = some ids ↔ List.Forall₂ (fun item id => f item = some id) items ids := by
  induction items generalizing ids with
  | nil => cases ids <;> simp
  | cons item items ih =>
      rw [List.mapM_cons]
      constructor
      · intro h
        obtain ⟨id, hid, h⟩ := Option.bind_eq_some_iff.mp h
        obtain ⟨rest, hrest, h⟩ := Option.bind_eq_some_iff.mp h
        cases h
        exact .cons hid (ih.mp hrest)
      · rintro (_ | ⟨hid, hrest⟩)
        rw [hid, ih.mpr hrest]
        rfl

/-- An id that is accepted is one of the list. -/
theorem selectorId_lt {l : PatternList} {selector : List Char} {id : Nat}
    (h : l.selectorId selector = some id) : id < l.patterns.length := by
  rw [selectorId] at h
  split at h
  · split at h
    · cases h
    · next hrange =>
      cases h
      omega
  · exact (List.findIdx?_eq_some_iff_getElem.mp h).1

theorem parseItems_lt {l : PatternList} {items : List (List Char)} {ids : List Nat}
    (h : List.Forall₂ (fun item id => l.parseItem item = some id) items ids) :
    ∀ id ∈ ids, id < l.patterns.length := by
  induction h with
  | nil => simp
  | cons hitem _ ih =>
      rw [parseItem] at hitem
      split at hitem
      · cases hitem
      · exact List.forall_mem_cons.mpr ⟨selectorId_lt hitem, ih⟩

/-- What the loop stores are the ids of all items. -/
theorem parseSelectors_eq_some_iff (l : PatternList) (selectors : List Char) (ids : List Nat) :
    l.parseSelectors selectors 0 [] = some ids ↔
      List.Forall₂ (fun item id => l.parseItem item = some id) (selectors.splitOn ',') ids := by
  have heq := l.parseSelectors_eq [] selectors []
  rw [List.nil_append, List.length_nil] at heq
  rw [heq, ← mapM_eq_some_iff]
  simp

theorem parseSelectors_lt {l : PatternList} {selectors : List Char} {ids : List Nat}
    (h : l.parseSelectors selectors 0 [] = some ids) : ∀ id ∈ ids, id < l.patterns.length :=
  parseItems_lt ((l.parseSelectors_eq_some_iff selectors ids).mp h)

/-- `PatternList::SetPatternSequence`: the list and its cursor, and the returned status. -/
def setPatternSequence (l : PatternList) (cursor : Nat) (selectors : List Char) :
    (PatternList × Nat) × Bool :=
  if selectors = [] then ((l, cursor), false)
  else
    match h : l.parseSelectors selectors 0 [] with
    | none => ((l, cursor), false)
    | some ids => (({ l with selectedPatternIds := ids, ids_lt := parseSelectors_lt h }, 0), true)

/-- Nothing is stored. -/
theorem setPatternSequence_none {l : PatternList} (cursor : Nat) {selectors : List Char}
    (h : selectors = [] ∨ l.parseSelectors selectors 0 [] = none) :
    l.setPatternSequence cursor selectors = ((l, cursor), false) := by
  rw [setPatternSequence]
  split
  · rfl
  · next hne =>
    split
    · rfl
    · next ids hids =>
      rw [h.resolve_left hne] at hids
      cases hids

/-- The ids of a list that is accepted are stored. -/
theorem setPatternSequence_some {l : PatternList} (cursor : Nat) {selectors : List Char} {ids : List Nat}
    (hne : selectors ≠ []) (h : l.parseSelectors selectors 0 [] = some ids) :
    ∃ hlt, l.setPatternSequence cursor selectors =
      (({ l with selectedPatternIds := ids, ids_lt := hlt }, 0), true) := by
  refine ⟨parseSelectors_lt h, ?_⟩
  rw [setPatternSequence, if_neg hne]
  split
  · next hnone =>
    rw [h] at hnone
    cases hnone
  · next ids' hids =>
    rw [h, Option.some.injEq] at hids
    subst hids
    rfl

/-! ## The names -/

/-- The names of the patterns that `Initialize` stores. -/
def patternNames : List (List Char) :=
  patternArray.flatMap fun d => [false, true].flatMap fun invert =>
    [32, 64, 128, 256].zipWith
      (fun width _ => d.name.toList ++ (if invert then ['~'] else []) ++
        ((Pattern.busOf width).getD (2, "Broken")).2.toList) d.weight

/-- They do not depend on the offset. -/
theorem names_initPatterns (byteOffset : Nat) :
    (initPatterns byteOffset).map (fun p => p.name.toList) = patternNames := by
  rw [initPatterns, List.map_flatMap]
  have hname (d : PatternData) (hd : d ∈ patternArray) (invert : Bool) (width weight : Nat) :
      (Pattern.initializePattern d hd width invert weight byteOffset).1.name.toList =
        d.name.toList ++ (if invert then ['~'] else []) ++
          ((Pattern.busOf width).getD (2, "Broken")).2.toList := by
    cases invert <;> simp [Pattern.initializePattern]
  have h : ∀ d ∈ patternArray.attach,
      (patternVersions byteOffset d.1 d.2).map (fun p => p.name.toList) =
        [false, true].flatMap fun invert => [32, 64, 128, 256].zipWith
          (fun width _ => d.1.name.toList ++ (if invert then ['~'] else []) ++
            ((Pattern.busOf width).getD (2, "Broken")).2.toList) d.1.weight := by
    intro d _
    simp only [patternVersions, List.map_flatMap, List.map_zipWith, hname]
  rw [List.flatMap_congr h, List.flatMap_subtype (g := fun d => [false, true].flatMap fun invert =>
    [32, 64, 128, 256].zipWith (fun width _ => d.name.toList ++ (if invert then ['~'] else []) ++
      ((Pattern.busOf width).getD (2, "Broken")).2.toList) d.weight) (fun _ _ => rfl)]
  simp [patternNames]

/-- Every name starts with a letter and has no NUL. -/
theorem patternNames_letters :
    ∀ name ∈ patternNames, (∃ c ∈ (name.map Char.toLower).head?, 65 ≤ c.toNat) ∧ '\x00' ∉ name := by
  have hall : patternNames.all (fun name =>
      ((name.map Char.toLower).head?.any fun c => Nat.ble 65 c.toNat) &&
        name.all fun c => !Nat.beq c.toNat 0) = true := by
    decide +kernel
  intro name hname
  have h := List.all_eq_true.mp hall name hname
  rw [Bool.and_eq_true, Option.any_eq_true, List.all_eq_true] at h
  obtain ⟨⟨c, hc, hge⟩, hzero⟩ := h
  refine ⟨⟨c, hc, Nat.le_of_ble_eq_true hge⟩, fun hmem => ?_⟩
  exact absurd (hzero _ hmem) (by decide)

/-- No two names are the same without regard to case. -/
theorem patternNames_nodup : (patternNames.map (List.map Char.toLower)).Nodup := by
  -- a name is known by the number that its bytes make up
  have hnumbers : ((patternNames.map (List.map Char.toLower)).map fun name =>
      name.foldl (fun n c => 256 * n + c.toNat) 0).Nodup := by
    decide +kernel
  exact List.Nodup.of_map _ hnumbers

/-! ## The grammar -/

/-- A trimmed item stands for a pattern: its decimal number, or its full name in any case. -/
def Selects (l : PatternList) (item : List Char) (id : Nat) : Prop :=
  ∃ p, l.getPattern id = some p ∧
    (Text.IsDecimal item id ∨ item.map Char.toLower = p.name.toList.map Char.toLower)

theorem toLower_of_small {c : Char} (h : c.toNat < 65) : c.toLower = c := by
  rw [Char.toLower, dif_neg]
  rintro ⟨hge, -⟩
  have hle : 65 ≤ c.toNat := UInt32.le_iff_toNat_le.mp hge
  omega

/-- A number starts with a character below the letters. -/
theorem head_of_isDecimal {text : List Char} {n : Int} (h : Text.IsDecimal text n) :
    ∃ c ∈ (text.map Char.toLower).head?, c.toNat < 65 := by
  obtain ⟨spaces, sign, digits, rfl, hspaces, hne, hdigits, hsign⟩ := h
  obtain ⟨d, ds, rfl⟩ := List.exists_cons_of_ne_nil hne
  have hhead : ∃ c ∈ (spaces ++ (sign ++ d :: ds)).head?, c.toNat < 65 := by
    cases spaces with
    | cons c spaces => exact ⟨c, rfl, by have := Text.space_range (hspaces c List.mem_cons_self); omega⟩
    | nil =>
        rcases hsign with ⟨rfl | rfl, -⟩ | ⟨rfl, -⟩
        · exact ⟨d, rfl, by have := Text.digit_range (hdigits d List.mem_cons_self); omega⟩
        · exact ⟨'+', rfl, by decide⟩
        · exact ⟨'-', rfl, by decide⟩
  obtain ⟨c, hc, hlt⟩ := hhead
  refine ⟨c.toLower, ?_, by rwa [toLower_of_small hlt]⟩
  rw [List.head?_map, hc]
  rfl

/-- The characters of an item are characters of the list. -/
theorem mem_of_mem_splitOn {selectors item : List Char} {c : Char} (hitem : item ∈ selectors.splitOn ',')
    (hc : c ∈ item) : c ∈ selectors := by
  obtain ⟨i, hi⟩ := List.mem_iff_getElem?.mp hitem
  have hmem : item ∈ (selectors.splitOn ',').intersperse [','] :=
    List.mem_of_getElem? (List.getElem?_intersperse_two_mul.trans hi)
  have hjoin : c ∈ ((selectors.splitOn ',').intersperse [',']).flatten :=
    List.mem_flatten.mpr ⟨item, hmem, hc⟩
  have hback : [','].intercalate (selectors.splitOn ',') = selectors := List.intercalate_splitOn ','
  rw [List.intercalate] at hback
  rwa [hback] at hjoin

/-- An item is blank if nothing is left of it. -/
theorem trim_eq_nil_iff (item : List Char) : trim item = [] ↔ item.all isBlank = true := by
  rw [trim, List.rdropWhile_eq_nil_iff, List.all_eq_true]
  constructor
  · intro h
    rw [← List.dropWhile_eq_nil_iff]
    by_contra hne
    have hhead := List.head_dropWhile_not isBlank hne
    rw [h _ (List.head_mem hne)] at hhead
    cases hhead
  · exact fun h c hc => h c ((List.dropWhile_sublist _).mem hc)

theorem exists_forall₂_iff {R : List Char → Nat → Prop} {items : List (List Char)} :
    (∃ ids, List.Forall₂ R items ids) ↔ ∀ item ∈ items, ∃ id, R item id := by
  induction items with
  | nil => simp
  | cons item items ih =>
      rw [List.forall_mem_cons, ← ih]
      constructor
      · rintro ⟨_, _ | ⟨hid, hrest⟩⟩
        exact ⟨⟨_, hid⟩, _, hrest⟩
      · rintro ⟨⟨id, hid⟩, ids, hrest⟩
        exact ⟨id :: ids, .cons hid hrest⟩

theorem forall₂_of_mem {R S : List Char → Nat → Prop} {items : List (List Char)} {ids : List Nat}
    (h : ∀ item ∈ items, ∀ id, R item id → S item id) (hR : List.Forall₂ R items ids) :
    List.Forall₂ S items ids := by
  induction hR with
  | nil => exact .nil
  | cons hid _ ih =>
      exact .cons (h _ List.mem_cons_self _ hid) (ih fun item hmem => h item (List.mem_cons_of_mem _ hmem))

theorem mem_of_mem_trim {item : List Char} {c : Char} (hc : c ∈ trim item) : c ∈ item :=
  (List.dropWhile_sublist _).mem ((List.rdropWhile_prefix _ _).mem hc)

section Initialized

variable {l : PatternList} {byteOffset : Nat} (hl : l.patterns = initPatterns byteOffset)
include hl

/-- A name in any case is no number. -/
theorem not_isDecimal_of_name {p : Pattern} (hp : p ∈ l.patterns) {item : List Char}
    (hitem : item.map Char.toLower = p.name.toList.map Char.toLower) (n : Int) :
    ¬ Text.IsDecimal item n := by
  intro hdecimal
  have hname : p.name.toList ∈ patternNames := by
    rw [← names_initPatterns byteOffset, ← hl]
    exact List.mem_map_of_mem hp
  obtain ⟨⟨c, hc, hge⟩, -⟩ := patternNames_letters _ hname
  obtain ⟨c', hc', hlt⟩ := head_of_isDecimal hdecimal
  rw [hitem] at hc'
  obtain rfl := Option.mem_unique hc hc'
  omega

/-- Patterns of the same name are the same. -/
theorem index_of_name {i j : Nat} {p q : Pattern} (hp : l.getPattern i = some p)
    (hq : l.getPattern j = some q)
    (hname : p.name.toList.map Char.toLower = q.name.toList.map Char.toLower) : i = j := by
  have hget (k : Nat) : (patternNames.map (List.map Char.toLower))[k]? =
      (l.getPattern k).map fun p => p.name.toList.map Char.toLower := by
    rw [← names_initPatterns byteOffset, ← hl, List.getElem?_map, List.getElem?_map, Option.map_map]
    rfl
  have hi := hget i
  have hj := hget j
  rw [hp, Option.map_some] at hi
  rw [hq, Option.map_some, ← hname] at hj
  exact (List.getElem?_inj (List.getElem?_eq_some_iff.mp hi).1 patternNames_nodup).mp (hi.trans hj.symm)

/-- An item that is accepted as an id or as a name, and no other. -/
theorem selectorId_eq_iff {item : List Char} (hnul : '\x00' ∉ item) (id : Nat) :
    l.selectorId item = some id ↔ l.Selects item id := by
  have hcstr : cStr item = item := List.takeWhile_eq_self_iff.mpr fun c hc => by
    simpa using fun h : c = '\x00' => hnul (h ▸ hc)
  have hlength : l.patterns.length < 2 ^ 31 := by
    rw [hl, ← List.length_map, names_initPatterns]
    decide +kernel
  rw [selectorId, hcstr]
  constructor
  · intro h
    split at h
    · next hnumber =>
      obtain ⟨herrno, hpos, hend⟩ := hnumber
      obtain ⟨n, hn⟩ := Text.isDecimal_of_consumed hpos hend
      have hvalue := (Text.strtol10_of_isDecimal hn).2
      rw [hvalue] at herrno h
      rw [Text.Strtol.value_of_errno herrno] at h
      split at h
      · cases h
      · next hrange =>
        cases h
        have hlt : n.toNat < l.patterns.length := by omega
        refine ⟨l.patterns[n.toNat], List.getElem?_eq_getElem hlt, Or.inl ?_⟩
        rwa [Int.toNat_of_nonneg (by omega)]
    · obtain ⟨hlt, hname, -⟩ := List.findIdx?_eq_some_iff_getElem.mp h
      exact ⟨l.patterns[id], List.getElem?_eq_getElem hlt, Or.inr (beq_iff_eq.mp hname)⟩
  · rintro ⟨p, hp, hdecimal | hname⟩
    · obtain ⟨hid, -⟩ := List.getElem?_eq_some_iff.mp hp
      obtain ⟨hne, hvalue⟩ := Text.strtol10_of_isDecimal hdecimal
      rw [Text.Strtol.ofInt_of_range (by omega) (by omega)] at hvalue
      rw [hvalue]
      dsimp only
      rw [if_pos ⟨rfl, by simpa using hne, List.drop_length⟩, if_neg (by omega), Int.toNat_natCast]
    · have hmem : p ∈ l.patterns := List.mem_of_getElem? hp
      rw [if_neg]
      · obtain ⟨hid, hget⟩ := List.getElem?_eq_some_iff.mp hp
        refine List.findIdx?_eq_some_iff_getElem.mpr ⟨hid, ?_, fun j hj hmatch => ?_⟩
        · rw [hget]
          exact beq_iff_eq.mpr hname
        · have heq := index_of_name hl (List.getElem?_eq_getElem (hj.trans hid)) hp
            ((beq_iff_eq.mp hmatch).symm.trans hname)
          omega
      · rintro ⟨-, hpos, hend⟩
        obtain ⟨n, hn⟩ := Text.isDecimal_of_consumed hpos hend
        exact not_isDecimal_of_name hl hmem hname n hn

/-- What the loop makes of an item is what the item stands for. -/
theorem parseItem_eq_iff {item : List Char} (hnul : '\x00' ∉ item) (id : Nat) :
    l.parseItem item = some id ↔ trim item ≠ [] ∧ l.Selects (trim item) id := by
  rw [parseItem, ← selectorId_eq_iff hl (fun h => hnul (mem_of_mem_trim h)), Ne, trim_eq_nil_iff]
  split
  · next hblank => simp [hblank]
  · next hblank => simp [hblank]

end Initialized

/-- **The `-P` list.** It is accepted if and only if it is not empty and all its items stand for
patterns. Then the selection are the patterns of the items in order, each the only one of its item, and
the cursor starts over; else nothing changes. No draw runs out of the list. -/
theorem set_pattern_sequence {byteOffset : Nat} (l : PatternList)
    (hl : l.patterns = initPatterns byteOffset) (cursor : Nat) (selectors : List Char)
    (hnul : '\x00' ∉ selectors) :
    let r := l.setPatternSequence cursor selectors
    let items := (selectors.splitOn ',').map trim
    (r.2 = true ↔ selectors ≠ [] ∧ ∀ item ∈ items, item ≠ [] ∧ ∃ id, l.Selects item id) ∧
    (r.2 = true → r.1.1.patterns = l.patterns ∧ r.1.2 = 0 ∧
      List.Forall₂ l.Selects items r.1.1.selectedPatternIds) ∧
    (r.2 = false → r.1 = (l, cursor)) ∧
    (∀ item ∈ items, ∀ id id', l.Selects item id → l.Selects item id' → id = id') ∧
    (∀ id ∈ r.1.1.selectedPatternIds, id < r.1.1.patterns.length) ∧
    ∀ c random, (r.1.1.getRandomPattern c random).isSome := by
  intro r items
  have hitem {item : List Char} (hmem : item ∈ selectors.splitOn ',') (id : Nat) :
      l.parseItem item = some id ↔ trim item ≠ [] ∧ l.Selects (trim item) id :=
    parseItem_eq_iff hl (fun h => hnul (mem_of_mem_splitOn hmem h)) id
  have haccept : (∃ ids, l.parseSelectors selectors 0 [] = some ids) ↔
      ∀ item ∈ items, item ≠ [] ∧ ∃ id, l.Selects item id := by
    simp only [parseSelectors_eq_some_iff]
    rw [exists_forall₂_iff, List.forall_mem_map]
    refine forall₂_congr fun item hmem => ?_
    simp only [hitem hmem, exists_and_left]
  have hunique : ∀ item ∈ items, ∀ id id', l.Selects item id → l.Selects item id' → id = id' := by
    rintro item hmem id id' hid hid'
    obtain ⟨text, htext, rfl⟩ := List.mem_map.mp hmem
    have hfree : '\x00' ∉ trim text := fun h => hnul (mem_of_mem_splitOn htext (mem_of_mem_trim h))
    rw [← selectorId_eq_iff hl hfree] at hid hid'
    exact Option.some.inj (hid.symm.trans hid')
  by_cases hstored : selectors ≠ [] ∧ ∃ ids, l.parseSelectors selectors 0 [] = some ids
  · obtain ⟨hne, ids, hids⟩ := hstored
    obtain ⟨hlt, hr⟩ := setPatternSequence_some cursor hne hids
    rw [show r = _ from hr]
    refine ⟨iff_of_true rfl ⟨hne, haccept.mp ⟨ids, hids⟩⟩, fun _ => ⟨rfl, rfl, ?_⟩, nofun, hunique, hlt,
      PatternList.getRandomPattern_isSome _⟩
    rw [List.forall₂_map_left_iff]
    exact forall₂_of_mem (fun item hmem id hid => ((hitem hmem id).mp hid).2)
      ((l.parseSelectors_eq_some_iff selectors ids).mp hids)
  · have hnone : selectors = [] ∨ l.parseSelectors selectors 0 [] = none := by
      by_cases hempty : selectors = []
      · exact Or.inl hempty
      · exact Or.inr (Option.eq_none_iff_forall_ne_some.mpr fun ids hids => hstored ⟨hempty, ids, hids⟩)
    rw [show r = _ from setPatternSequence_none cursor hnone]
    rw [haccept] at hstored
    exact ⟨iff_of_false Bool.false_ne_true hstored, nofun, fun _ => rfl, hunique, l.ids_lt,
      l.getRandomPattern_isSome⟩

/-- A list of two ids. -/
theorem set_pattern_sequence_small :
    let r := (initializeList 0).setPatternSequence 7 ['0', ',', ' ', '3']
    r.2 = true ∧ r.1.2 = 0 ∧
      List.Forall₂ (initializeList 0).Selects [['0'], ['3']] r.1.1.selectedPatternIds := by
  intro r
  obtain ⟨hiff, hstored, -⟩ := set_pattern_sequence (initializeList 0) rfl 7 ['0', ',', ' ', '3']
    (by decide)
  have hselects {c : Char} {id : Nat} (hid : id < (initializeList 0).patterns.length)
      (hc : Text.isDigit c = true) (hnumber : Text.decimalNumber [c] = id) :
      (initializeList 0).Selects [c] id :=
    ⟨_, List.getElem?_eq_getElem hid, Or.inl ⟨[], [], [c], rfl, nofun, List.cons_ne_nil c [],
      List.forall_mem_singleton.mpr hc, Or.inl ⟨Or.inl rfl, by rw [hnumber]⟩⟩⟩
  have hlength : (initializeList 0).patterns.length = 120 := by
    change (initPatterns 0).length = 120
    rw [← List.length_map, names_initPatterns]
    decide +kernel
  have htrue : r.2 = true := by
    refine hiff.mpr ⟨List.cons_ne_nil _ _, ?_⟩
    change ∀ item ∈ [['0'], ['3']], _
    rw [List.forall_mem_cons, List.forall_mem_singleton]
    exact ⟨⟨List.cons_ne_nil _ _, 0, hselects (by omega) rfl rfl⟩,
      List.cons_ne_nil _ _, 3, hselects (by omega) rfl rfl⟩
  exact ⟨htrue, (hstored htrue).2⟩

end StressAppTest.PatternList
