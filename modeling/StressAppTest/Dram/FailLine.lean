import StressAppTest.Dram.Rows

/-!
# Rewriting fail lines (`logger.cc`)

With the SM8975 mapping, `VLogF` looks for the physical address and the read and expected values in
every line that reports a miscompare, and replaces the DRAM coordinates by the rows of the mapping.
The values are found by searching for the text around them. `rewriteSm8975Lp6FailLine_eq` says what
the text of a line must be for that, and `FailShape.rewrite` derives it for format strings from
a check of the format alone.
-/

namespace StressAppTest

open Text Printf

/-- `ParseHexAfter` -/
def parseHexAfter (line marker : List Char) : Option Word64 :=
  match find marker line with
  | none => none
  | some markerPos =>
      let digitsPos := markerPos + marker.length
      if line.length ≤ digitsPos then none
      else (strtoull16 (line.drop digitsPos)).map (BitVec.ofNat 64)

/-- `ParseLoggedPhysicalAddress` -/
def parseLoggedPhysicalAddress (line : List Char) : Option Word64 := do
  let atPos ← rfind " at ".toList line
  let openPos ← findFrom "(".toList line (atPos + 4)
  let hexPos ← findFrom "0x".toList line (openPos + 1)
  (strtoull16 (line.drop (hexPos + 2))).map (BitVec.ofNat 64)

/-- The replacement at the end of `RewriteSm8975Lp6FailLine`. -/
def replaceCoordinates (line rows : List Char) : Option (List Char) := do
  let expectedPos ← find "expected:0x".toList line
  let coordStart ← findFrom "ch:".toList line expectedPos
  let coordEnd ← findFrom ", cur_mode:".toList line coordStart
  return line.take coordStart ++ rows ++ line.drop coordEnd

/-- `RewriteSm8975Lp6FailLine` -/
def rewriteSm8975Lp6FailLine (line : List Char) : List Char :=
  if find "miscompare".toList line = none then line
  else
    match parseLoggedPhysicalAddress line, parseHexAfter line "read:0x".toList,
      parseHexAfter line "expected:0x".toList with
    | some physicalAddress, some actual, some expected =>
        (replaceCoordinates line (formatSm8975Lp6Rows physicalAddress expected actual)).getD line
    | _, _, _ => line

/-! ## Numbers in the text -/

/-- A run of hexadecimal digits that stands for a word. -/
structure HexOf (digits : List Char) (value : Word64) : Prop where
  ne_nil : digits ≠ []
  isHex : ∀ d ∈ digits, isHex d = true
  number : hexNumber digits = value.toNat

/-- A character that ends a number. -/
def EndsNumber (c : Char) : Prop := isHex c = false ∧ c ≠ 'x' ∧ c ≠ 'X'

theorem HexOf.strtoull {digits : List Char} {value : Word64} (h : HexOf digits value) {c : Char}
    (hc : EndsNumber c) (t : List Char) :
    (strtoull16 (digits ++ c :: t)).map (BitVec.ofNat 64) = some value := by
  rw [strtoull16_digits h.ne_nil h.isHex hc.1 hc.2 (by rw [h.number]; exact value.isLt), h.number]
  simp

theorem hexOf_number (width : Nat) (value : Word64) : HexOf (number 'x' width value.toNat) value := by
  have hnum : number 'x' width value.toNat = pad width (Nat.toDigits 16 value.toNat) := rfl
  rw [hnum]
  refine ⟨?_, ?_, ?_⟩
  · simp [pad, Nat.toDigits_ne_nil]
  · intro d hd
    rcases mem_pad hd with rfl | hd
    · decide
    · exact isHex_of_mem_toDigits hd
  · rw [pad, hexNumber_replicate_zero, hexNumber_toDigits]

theorem parseHexAfter_of_skips {p marker digits t : List Char} {c : Char} {value : Word64}
    (hskip : Skips marker p (marker ++ (digits ++ c :: t))) (hdigits : HexOf digits value)
    (hc : EndsNumber c) :
    parseHexAfter (p ++ (marker ++ (digits ++ c :: t))) marker = some value := by
  rw [parseHexAfter, find_of_skips hskip]
  have hlt : ¬ (p ++ (marker ++ (digits ++ c :: t))).length ≤ p.length + marker.length := by
    simp
  simp only [if_neg hlt]
  rw [← List.append_assoc, ← List.length_append, List.drop_left]
  exact hdigits.strtoull hc t

/-- The address after the last `at`. A null pointer has a bracket of its own. -/
theorem parseLoggedPhysicalAddress_of_skips {p digits t : List Char} {c : Char} {vaddr paddr : Word64}
    (hskip : Skips " at ".toList (" at ".toList.tail ++
      (number 'p' 0 vaddr.toNat ++ ("(0x".toList ++ (digits ++ c :: t)))) [])
    (hdigits : HexOf digits paddr) (hc : EndsNumber c) :
    parseLoggedPhysicalAddress (p ++ (" at ".toList ++
      (number 'p' 0 vaddr.toNat ++ ("(0x".toList ++ (digits ++ c :: t))))) = some paddr := by
  -- the first bracket, and the first `0x` after it
  obtain ⟨v, w, hvw, hv, hw⟩ : ∃ v w, number 'p' 0 vaddr.toNat ++ ("(0x".toList ++ (digits ++ c :: t)) =
      v ++ ("(".toList ++ (w ++ ("0x".toList ++ (digits ++ c :: t)))) ∧
      (∀ s, Skips "(".toList v s) ∧ ∀ s, Skips "0x".toList w s := by
    by_cases hnil : (vaddr.toNat : Int) = 0
    · refine ⟨[], "nil)(".toList, ?_, fun s => Skips.nil _ s, fun s => ?_⟩
      · rw [number, if_pos rfl, if_pos hnil]
        rfl
      · have hskip : Skips "0x".toList (render (format "nil)(") []) s :=
          skips_of_clear (by decide) (by rw [Fits]; decide) (by decide)
            (fun s hs => absurd hs List.not_mem_nil) s
        exact hskip
    · refine ⟨number 'p' 0 vaddr.toNat, [], rfl, fun s => ?_, fun s => Skips.nil _ s⟩
      have hformat : format "0x%x" = [.lit '0', .lit 'x', .conv 'x' 0] := rfl
      have hrender : number 'p' 0 vaddr.toNat = render (format "0x%x") [.num vaddr.toNat] := by
        rw [number, if_pos rfl, if_neg hnil, hformat]
        simp [render, Arg.text, number, pad]
      rw [hrender]
      refine skips_of_clear (by decide) ?_ (by decide) ?_ s
      · rw [hformat]
        rfl
      · intro s hs
        simp at hs
  have hopen := findFrom_of_skips (s := p ++ " at ".toList) (hv ("(".toList ++ (w ++ ("0x".toList ++
    (digits ++ c :: t)))))
  have hhex := findFrom_of_skips (s := p ++ (" at ".toList ++ (v ++ "(".toList)))
    (hw ("0x".toList ++ (digits ++ c :: t)))
  have hdrop := @List.drop_left _ (p ++ (" at ".toList ++ (v ++ ("(".toList ++ (w ++ "0x".toList)))))
    (digits ++ c :: t)
  have hat : " at ".toList.length = 4 := rfl
  have hbracket : "(".toList.length = 1 := rfl
  have hbase : "0x".toList.length = 2 := rfl
  simp only [List.append_assoc, List.length_append, hat, hbracket, hbase, ← Nat.add_assoc]
    at hopen hhex hdrop
  rw [parseLoggedPhysicalAddress, rfind_of_skips (by decide) hskip, hvw]
  simp only [Option.bind_eq_bind, Option.bind_some, hopen, hhex, hdrop]
  exact hdigits.strtoull hc t

/-! ## The line -/

theorem find_ne_none {needle a b : List Char} : find needle (a ++ (needle ++ b)) ≠ none := by
  induction a with
  | nil => simp [find_self]
  | cons c a ih =>
      rw [List.cons_append, find]
      split
      · simp
      · simpa using ih

theorem replaceCoordinates_of_skips {p q coords r rows : List Char}
    (hexpected : Skips "expected:0x".toList p ("expected:0x".toList ++ (q ++ ("ch:".toList ++
      (coords ++ (", cur_mode:".toList ++ r))))))
    (hch : Skips "ch:".toList ("expected:0x".toList ++ q) ("ch:".toList ++
      (coords ++ (", cur_mode:".toList ++ r))))
    (hmode : Skips ", cur_mode:".toList ("ch:".toList ++ coords) (", cur_mode:".toList ++ r)) :
    replaceCoordinates (p ++ ("expected:0x".toList ++ (q ++ ("ch:".toList ++
        (coords ++ (", cur_mode:".toList ++ r)))))) rows =
      some (p ++ ("expected:0x".toList ++ q) ++ rows ++ (", cur_mode:".toList ++ r)) := by
  have hstart := findFrom_of_skips (s := p) hch
  have hend := findFrom_of_skips (s := p ++ ("expected:0x".toList ++ q)) hmode
  have htake := @List.take_left _ (p ++ ("expected:0x".toList ++ q))
    ("ch:".toList ++ (coords ++ (", cur_mode:".toList ++ r)))
  have hdrop := @List.drop_left _ (p ++ ("expected:0x".toList ++ q) ++ ("ch:".toList ++ coords))
    (", cur_mode:".toList ++ r)
  simp only [List.append_assoc, List.length_append, Nat.add_assoc] at hstart hend htake hdrop
  rw [replaceCoordinates, find_of_skips hexpected]
  simp only [Option.bind_eq_bind, Option.bind_some, List.append_assoc, hstart, hend, htake, hdrop]
  rfl

/-! ## Formats of fail lines -/

/-- A format that prints a miscompare, in pieces around what the parser looks for. -/
structure FailShape where
  pre : List Directive
  post : List Directive
  mid : List Directive
  sep : List Directive
  tail : List Directive
  rest : List Directive

/-- The arguments of a fail line. -/
structure FailArgs where
  pre : List Arg
  post : List Arg
  vaddr : Word64
  paddr : Word64
  mid : List Arg
  actual : Word64
  reread : Word64
  expected : Word64
  tail : List Arg
  coords : List Char
  rest : List Arg

namespace FailShape

variable (f : FailShape) (v : FailArgs)

/-- The directives before `read:0x`. -/
def beforeRead : List Directive :=
  f.pre ++ (format "miscompare" ++ (f.post ++ (format " at %p(0x%llx" ++ f.mid)))

/-- The directives before `expected:0x`. -/
def beforeExpected : List Directive :=
  f.beforeRead ++ (format "read:0x%016llx, reread:0x%016llx" ++ f.sep)

/-- The directives from `expected:0x` to the coordinates. -/
def beforeCoords : List Directive := format "expected:0x%016llx" ++ f.tail

/-- All directives after the first character of the last `at`. -/
def afterAt : List Directive :=
  format "at %p(0x%llx" ++ (f.mid ++ (format "read:0x%016llx, reread:0x%016llx" ++ (f.sep ++
    (f.beforeCoords ++ (format "ch:%s, cur_mode:" ++ f.rest)))))

def directives : List Directive :=
  f.beforeExpected ++ (f.beforeCoords ++ (format "ch:%s, cur_mode:" ++ f.rest))

end FailShape

namespace FailArgs

variable (v : FailArgs)

def beforeRead : List Arg :=
  v.pre ++ ([] ++ (v.post ++ ([.num v.vaddr.toNat, .num v.paddr.toNat] ++ v.mid)))

def beforeExpected : List Arg :=
  v.beforeRead ++ ([.num v.actual.toNat, .num v.reread.toNat] ++ [])

def beforeCoords : List Arg := [.num v.expected.toNat] ++ v.tail

def afterAt : List Arg :=
  [.num v.vaddr.toNat, .num v.paddr.toNat] ++ (v.mid ++ ([.num v.actual.toNat, .num v.reread.toNat] ++
    ([] ++ (v.beforeCoords ++ ([.str v.coords] ++ v.rest)))))

def args : List Arg := v.beforeExpected ++ (v.beforeCoords ++ ([.str v.coords] ++ v.rest))

end FailArgs

/-- The first directive is a character that ends a number. -/
def endsNumber : List Directive → Bool
  | .lit c :: _ => !isHex c && c != 'x' && c != 'X'
  | _ => false

/-- The check of a format: no search stops before the place it looks for. -/
def FailShape.ok (f : FailShape) : Bool :=
  clear "read:0x".toList f.beforeRead && clear "expected:0x".toList f.beforeExpected &&
  clear " at ".toList f.afterAt && clear "ch:".toList f.beforeCoords &&
  endsNumber f.mid && endsNumber f.tail

/-- The arguments fit the format, and no string among them contains a text that is searched for. -/
structure FailShape.Accepts (f : FailShape) (v : FailArgs) : Prop where
  pre : Fits f.pre v.pre
  post : Fits f.post v.post
  mid : Fits f.mid v.mid
  sep : Fits f.sep []
  tail : Fits f.tail v.tail
  rest : Fits f.rest v.rest
  read : Avoid "read:0x".toList (v.pre ++ (v.post ++ v.mid))
  expected : Avoid "expected:0x".toList (v.pre ++ (v.post ++ v.mid))
  ch : Avoid "ch:".toList v.tail
  addr : Avoid " at ".toList (v.mid ++ (v.tail ++ (.str v.coords :: v.rest)))
  mode : ∀ t, Skips ", cur_mode:".toList ("ch:".toList ++ v.coords) t

theorem fits_at (x y : Int) : Fits (format " at %p(0x%llx") [.num x, .num y] :=
  show kinds (format " at %p(0x%llx") = [false, false] from rfl

theorem fits_at_tail (x y : Int) : Fits (format "at %p(0x%llx") [.num x, .num y] :=
  show kinds (format "at %p(0x%llx") = [false, false] from rfl

theorem fits_read (x y : Int) : Fits (format "read:0x%016llx, reread:0x%016llx") [.num x, .num y] :=
  show kinds (format "read:0x%016llx, reread:0x%016llx") = [false, false] from rfl

theorem fits_expected (x : Int) : Fits (format "expected:0x%016llx") [.num x] :=
  show kinds (format "expected:0x%016llx") = [false] from rfl

theorem fits_coords (s : List Char) : Fits (format "ch:%s, cur_mode:") [.str s] :=
  show kinds (format "ch:%s, cur_mode:") = [true] from rfl

theorem fits_miscompare : Fits (format "miscompare") [] :=
  show kinds (format "miscompare") = [] from rfl

theorem render_at (x y : Int) : render (format " at %p(0x%llx") [.num x, .num y] =
    " at ".toList ++ (number 'p' 0 x ++ ("(0x".toList ++ number 'x' 0 y)) := by
  have hformat : format " at %p(0x%llx" =
    text " at ".toList ++ .conv 'p' 0 :: (text "(0x".toList ++ [.conv 'x' 0]) := rfl
  rw [hformat, render_text, render, render_text, render, render, List.append_nil]
  rfl

theorem render_at_tail (x y : Int) : render (format "at %p(0x%llx") [.num x, .num y] =
    " at ".toList.tail ++ (number 'p' 0 x ++ ("(0x".toList ++ number 'x' 0 y)) := by
  have hformat : format "at %p(0x%llx" =
    text " at ".toList.tail ++ .conv 'p' 0 :: (text "(0x".toList ++ [.conv 'x' 0]) := rfl
  rw [hformat, render_text, render, render_text, render, render, List.append_nil]
  rfl

theorem render_read (x y : Int) : render (format "read:0x%016llx, reread:0x%016llx") [.num x, .num y] =
    "read:0x".toList ++ (number 'x' 16 x ++ (", reread:0x".toList ++ number 'x' 16 y)) := by
  have hformat : format "read:0x%016llx, reread:0x%016llx" =
    text "read:0x".toList ++ .conv 'x' 16 :: (text ", reread:0x".toList ++ [.conv 'x' 16]) := rfl
  rw [hformat, render_text, render, render_text, render, render, List.append_nil]
  rfl

theorem render_expected (x : Int) : render (format "expected:0x%016llx") [.num x] =
    "expected:0x".toList ++ number 'x' 16 x := by
  have hformat : format "expected:0x%016llx" = text "expected:0x".toList ++ [.conv 'x' 16] := rfl
  rw [hformat, render_text, render, render, List.append_nil]
  rfl

theorem render_coords (s : List Char) : render (format "ch:%s, cur_mode:") [.str s] =
    "ch:".toList ++ (s ++ ", cur_mode:".toList) := by
  have hformat : format "ch:%s, cur_mode:" =
    text "ch:".toList ++ .conv 's' 0 :: (text ", cur_mode:".toList ++ []) := rfl
  rw [hformat, render_text, render, render_text, render, List.append_nil]
  rfl

theorem render_miscompare : render (format "miscompare") [] = "miscompare".toList := rfl

theorem exists_of_endsNumber {ds : List Directive} (h : endsNumber ds = true) (as : List Arg) :
    ∃ c t, render ds as = c :: t ∧ EndsNumber c := by
  match ds, h with
  | .lit c :: ds, h =>
      refine ⟨c, render ds as, rfl, ?_⟩
      simpa [endsNumber, EndsNumber, and_assoc] using h

namespace FailShape

variable {f : FailShape} {v : FailArgs}

theorem Accepts.fits_beforeRead (h : f.Accepts v) : Fits f.beforeRead v.beforeRead :=
  h.pre.append (fits_miscompare.append (h.post.append ((fits_at _ _).append h.mid)))

theorem Accepts.fits_beforeExpected (h : f.Accepts v) : Fits f.beforeExpected v.beforeExpected :=
  h.fits_beforeRead.append ((fits_read _ _).append h.sep)

theorem Accepts.fits_beforeCoords (h : f.Accepts v) : Fits f.beforeCoords v.beforeCoords :=
  (fits_expected _).append h.tail

theorem Accepts.fits_afterAt (h : f.Accepts v) : Fits f.afterAt v.afterAt :=
  (fits_at_tail _ _).append (h.mid.append ((fits_read _ _).append (h.sep.append
    (h.fits_beforeCoords.append ((fits_coords _).append h.rest)))))

theorem Accepts.avoid_beforeRead (h : f.Accepts v) : Avoid "read:0x".toList v.beforeRead := by
  intro s hs
  apply h.read
  simpa [FailArgs.beforeRead] using hs

theorem Accepts.avoid_beforeExpected (h : f.Accepts v) :
    Avoid "expected:0x".toList v.beforeExpected := by
  intro s hs
  apply h.expected
  simpa [FailArgs.beforeExpected, FailArgs.beforeRead] using hs

theorem Accepts.avoid_beforeCoords (h : f.Accepts v) : Avoid "ch:".toList v.beforeCoords := by
  intro s hs
  apply h.ch
  simpa [FailArgs.beforeCoords] using hs

theorem Accepts.avoid_afterAt (h : f.Accepts v) : Avoid " at ".toList v.afterAt := by
  intro s hs
  apply h.addr
  simpa [FailArgs.afterAt, FailArgs.beforeCoords] using hs

/-- The text before the coordinates. -/
def before (f : FailShape) (v : FailArgs) : List Char :=
  render f.beforeExpected v.beforeExpected ++ render f.beforeCoords v.beforeCoords

/-- The text after the coordinates. -/
def after (f : FailShape) (v : FailArgs) : List Char := ", cur_mode:".toList ++ render f.rest v.rest

theorem render_beforeCoords : render f.beforeCoords v.beforeCoords =
    "expected:0x".toList ++ (number 'x' 16 v.expected.toNat ++ render f.tail v.tail) := by
  rw [beforeCoords, FailArgs.beforeCoords, render_append (fits_expected _), render_expected,
    List.append_assoc]

theorem Accepts.render_beforeExpected (h : f.Accepts v) :
    render f.beforeExpected v.beforeExpected = render f.beforeRead v.beforeRead ++ ("read:0x".toList ++
      (number 'x' 16 v.actual.toNat ++ (", reread:0x".toList ++ (number 'x' 16 v.reread.toNat ++
        render f.sep [])))) := by
  rw [beforeExpected, FailArgs.beforeExpected, render_append h.fits_beforeRead,
    render_append (fits_read _ _), render_read]
  simp only [List.append_assoc]

/-- The text of a line, cut at its coordinates. -/
theorem Accepts.render_directives (h : f.Accepts v) :
    render f.directives v.args = f.before v ++ ("ch:".toList ++ (v.coords ++ f.after v)) := by
  have hcoords : render (format "ch:%s, cur_mode:" ++ f.rest) ([.str v.coords] ++ v.rest) =
      "ch:".toList ++ (v.coords ++ f.after v) := by
    rw [render_append (fits_coords _), render_coords, List.append_assoc, List.append_assoc]
    rfl
  rw [directives, FailArgs.args, render_append h.fits_beforeExpected, render_append h.fits_beforeCoords,
    hcoords, before, List.append_assoc]

/-- The text of a line, cut at its last `at`. -/
theorem Accepts.render_at (h : f.Accepts v) : ∃ p t, render f.directives v.args =
      p ++ ("miscompare".toList ++ (render f.post v.post ++ (" at ".toList ++ t))) ∧
    render f.afterAt v.afterAt = " at ".toList.tail ++ t ∧
    t = number 'p' 0 v.vaddr.toNat ++ ("(0x".toList ++ (number 'x' 0 v.paddr.toNat ++
      (render f.mid v.mid ++ (render (format "read:0x%016llx, reread:0x%016llx" ++ (f.sep ++
        (f.beforeCoords ++ (format "ch:%s, cur_mode:" ++ f.rest)))) ([.num v.actual.toNat,
          .num v.reread.toNat] ++ ([] ++ (v.beforeCoords ++ ([.str v.coords] ++ v.rest)))))))) := by
  refine ⟨render f.pre v.pre, _, ?_, ?_, rfl⟩
  · rw [directives, FailArgs.args, beforeExpected, FailArgs.beforeExpected, beforeRead,
      FailArgs.beforeRead]
    simp only [List.append_assoc]
    rw [render_append h.pre, render_append fits_miscompare, render_append h.post,
      render_append (fits_at _ _), render_append h.mid, StressAppTest.render_at, render_miscompare]
    simp only [List.append_assoc]
  · rw [afterAt, FailArgs.afterAt, render_append (fits_at_tail _ _), render_append h.mid, render_at_tail]
    simp only [List.append_assoc]

theorem ok_iff : f.ok = true ↔ clear "read:0x".toList f.beforeRead = true ∧
    clear "expected:0x".toList f.beforeExpected = true ∧ clear " at ".toList f.afterAt = true ∧
    clear "ch:".toList f.beforeCoords = true ∧ endsNumber f.mid = true ∧ endsNumber f.tail = true := by
  simp only [ok, Bool.and_eq_true, and_assoc]

theorem Accepts.parse_address (h : f.Accepts v) (hok : f.ok = true) :
    parseLoggedPhysicalAddress (render f.directives v.args) = some v.paddr := by
  obtain ⟨p, t, hline, hafter, rfl⟩ := h.render_at
  obtain ⟨-, -, hclear, -, hmid, -⟩ := ok_iff.mp hok
  obtain ⟨c, m, hm, hc⟩ := exists_of_endsNumber hmid v.mid
  have hskip := skips_of_clear (by decide) h.fits_afterAt hclear h.avoid_afterAt []
  rw [hafter, hm, List.cons_append] at hskip
  have hparse := parseLoggedPhysicalAddress_of_skips
    (p := p ++ ("miscompare".toList ++ render f.post v.post)) hskip (hexOf_number 0 v.paddr) hc
  rw [hline, hm, List.cons_append, ← hparse]
  simp only [List.append_assoc]

theorem Accepts.parse_actual (h : f.Accepts v) (hok : f.ok = true) :
    parseHexAfter (render f.directives v.args) "read:0x".toList = some v.actual := by
  obtain ⟨hclear, -⟩ := ok_iff.mp hok
  have hskip := skips_of_clear (by decide) h.fits_beforeRead hclear h.avoid_beforeRead
  rw [h.render_directives, before, h.render_beforeExpected]
  simp only [List.append_assoc]
  exact parseHexAfter_of_skips (hskip _) (hexOf_number 16 v.actual) ⟨by decide, by decide, by decide⟩

theorem Accepts.parse_expected (h : f.Accepts v) (hok : f.ok = true) :
    parseHexAfter (render f.directives v.args) "expected:0x".toList = some v.expected := by
  obtain ⟨-, hclear, -, -, -, htail⟩ := ok_iff.mp hok
  obtain ⟨c, m, hm, hc⟩ := exists_of_endsNumber htail v.tail
  have hskip := skips_of_clear (by decide) h.fits_beforeExpected hclear h.avoid_beforeExpected
  rw [h.render_directives, before, render_beforeCoords, hm]
  simp only [List.append_assoc, List.cons_append]
  exact parseHexAfter_of_skips (hskip _) (hexOf_number 16 v.expected) hc

theorem Accepts.replace_coords (h : f.Accepts v) (hok : f.ok = true) (rows : List Char) :
    replaceCoordinates (render f.directives v.args) rows = some (f.before v ++ rows ++ f.after v) := by
  obtain ⟨-, hexpected, -, hch, -, -⟩ := ok_iff.mp hok
  have hskip₁ := skips_of_clear (by decide) h.fits_beforeExpected hexpected h.avoid_beforeExpected
  have hskip₂ := skips_of_clear (by decide) h.fits_beforeCoords hch h.avoid_beforeCoords
  rw [render_beforeCoords] at hskip₂
  have hreplace : ∀ r, replaceCoordinates (render f.beforeExpected v.beforeExpected ++
      ("expected:0x".toList ++ (number 'x' 16 v.expected.toNat ++ render f.tail v.tail ++
        ("ch:".toList ++ (v.coords ++ (", cur_mode:".toList ++ r)))))) rows =
      some (render f.beforeExpected v.beforeExpected ++ ("expected:0x".toList ++
        (number 'x' 16 v.expected.toNat ++ render f.tail v.tail)) ++ rows ++ (", cur_mode:".toList ++ r)) :=
    fun r => replaceCoordinates_of_skips (hskip₁ _) (hskip₂ _) (h.mode _)
  have hgoal := hreplace (render f.rest v.rest)
  have hafter : ", cur_mode:".toList ++ render f.rest v.rest = f.after v := rfl
  rw [hafter] at hgoal
  rw [h.render_directives, before, render_beforeCoords]
  simp only [List.append_assoc] at hgoal ⊢
  exact hgoal

/-- **A line whose format passes the check is rewritten at its coordinates only**, by the rows of its
physical address and of its expected and actual values. -/
theorem Accepts.rewrite (h : f.Accepts v) (hok : f.ok = true) :
    rewriteSm8975Lp6FailLine (f.before v ++ ("ch:".toList ++ (v.coords ++ f.after v))) =
      f.before v ++ (formatSm8975Lp6Rows v.paddr v.expected v.actual ++ f.after v) := by
  have hfind : find "miscompare".toList (render f.directives v.args) ≠ none := by
    obtain ⟨p, t, hline, -⟩ := h.render_at
    rw [hline]
    exact find_ne_none
  rw [← h.render_directives, rewriteSm8975Lp6FailLine, if_neg hfind, h.parse_address hok,
    h.parse_actual hok, h.parse_expected hok]
  simp only [h.replace_coords hok, Option.getD_some, List.append_assoc]

end FailShape

end StressAppTest
