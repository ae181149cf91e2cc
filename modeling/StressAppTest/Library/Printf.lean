import StressAppTest.Library.Text

/-!
# Format strings

A format string is a list of directives, and `render` prints it with its arguments. What a search
finds in a printed text depends on the arguments, but mostly on the text around them: `clear`
computes from the directives alone that a needle starts nowhere in the text, whatever the numbers
are and whatever the strings are that do not contain the needle themselves.
-/

namespace Printf

open Text

/-- A character of the format, or a conversion with its minimal width. -/
inductive Directive where
  | lit (c : Char)
  | conv (kind : Char) (width : Nat)
  deriving DecidableEq

/-- The directives of a format string; `width` is that of an unfinished conversion. The length
modifier `ll` has no effect on the text. -/
def parse : Option Nat → List Char → List Directive
  | _, [] => []
  | none, c :: cs => if c = '%' then parse (some 0) cs else .lit c :: parse none cs
  | some width, c :: cs =>
      if c = 'l' then parse (some width) cs
      else if c.isDigit then parse (some (10 * width + (c.toNat - '0'.toNat))) cs
      else .conv c width :: parse none cs

def format (s : String) : List Directive := parse none s.toList

inductive Arg where
  | str (s : List Char)
  | num (n : Int)

/-- Zeros up to the width. -/
def pad (width : Nat) (digits : List Char) : List Char :=
  List.replicate (width - digits.length) '0' ++ digits

/-- The digits of `%d` and `%u`. -/
def decimal (n : Int) : List Char :=
  if n < 0 then '-' :: Nat.toDigits 10 n.natAbs else Nat.toDigits 10 n.natAbs

/-- The text of a number. A null pointer is printed as `(nil)`. -/
def number (kind : Char) (width : Nat) (n : Int) : List Char :=
  if kind = 'p' then
    if n = 0 then "(nil)".toList else '0' :: 'x' :: Nat.toDigits 16 n.toNat
  else if kind = 'x' then pad width (Nat.toDigits 16 n.toNat)
  else if kind = 'X' then pad width ((Nat.toDigits 16 n.toNat).map Char.toUpper)
  else pad width (decimal n)

def Arg.text (kind : Char) (width : Nat) : Arg → List Char
  | .str s => s
  | .num n => number kind width n

/-- `snprintf` into a buffer that is large enough. -/
def render : List Directive → List Arg → List Char
  | [], _ => []
  | .lit c :: ds, args => c :: render ds args
  | .conv _ _ :: _, [] => []
  | .conv kind width :: ds, a :: args => a.text kind width ++ render ds args

/-- Which conversions take a string. -/
def kinds : List Directive → List Bool
  | [] => []
  | .lit _ :: ds => kinds ds
  | .conv kind _ :: ds => decide (kind = 's') :: kinds ds

def Arg.isStr : Arg → Bool
  | .str _ => true
  | .num _ => false

/-- Every conversion has an argument of its type. -/
def Fits (ds : List Directive) (as : List Arg) : Prop := kinds ds = as.map Arg.isStr

theorem kinds_append (ds es : List Directive) : kinds (ds ++ es) = kinds ds ++ kinds es := by
  induction ds with
  | nil => rfl
  | cons d ds ih =>
      cases d with
      | lit c => exact ih
      | conv kind width => simp only [List.cons_append, kinds, ih]

theorem Fits.append {ds es : List Directive} {as bs : List Arg} (hds : Fits ds as) (hes : Fits es bs) :
    Fits (ds ++ es) (as ++ bs) := by
  rw [Fits, kinds_append, hds, hes, List.map_append]

theorem fits_conv {kind : Char} {width : Nat} {ds : List Directive} {as : List Arg}
    (h : Fits (.conv kind width :: ds) as) :
    ∃ a bs, as = a :: bs ∧ decide (kind = 's') = a.isStr ∧ Fits ds bs := by
  cases as with
  | nil => exact absurd h (List.cons_ne_nil _ _)
  | cons a bs =>
      rw [Fits, kinds, List.map_cons, List.cons.injEq] at h
      exact ⟨a, bs, rfl, h.1, h.2⟩

theorem render_append {ds es : List Directive} {as bs : List Arg} (hds : Fits ds as) :
    render (ds ++ es) (as ++ bs) = render ds as ++ render es bs := by
  induction ds generalizing as with
  | nil =>
      rw [List.map_eq_nil_iff.mp hds.symm]
      rfl
  | cons d ds ih =>
      cases d with
      | lit c => simp only [List.cons_append, render, ih hds]
      | conv kind width =>
          obtain ⟨a, as, rfl, -, hrest⟩ := fits_conv hds
          simp only [List.cons_append, render, ih hrest, List.append_assoc]

theorem render_str (kind : Char) (width : Nat) (ds : List Directive) (s : List Char) (as : List Arg) :
    render (.conv kind width :: ds) (.str s :: as) = s ++ render ds as := rfl

/-- A string argument that is itself printed can be printed in place. -/
theorem render_expand {ds xs es : List Directive} {as bs cs : List Arg} {width : Nat}
    (hds : Fits ds as) (hxs : Fits xs bs) :
    render (ds ++ .conv 's' width :: es) (as ++ .str (render xs bs) :: cs) =
      render (ds ++ (xs ++ es)) (as ++ (bs ++ cs)) := by
  rw [render_append hds, render_append hds, render_append hxs]
  rfl

/-- The directives of a text without conversions. -/
def text (s : List Char) : List Directive := s.map .lit

theorem render_text (s : List Char) (ds : List Directive) (as : List Arg) :
    render (text s ++ ds) as = s ++ render ds as := by
  induction s with
  | nil => rfl
  | cons c s ih => simpa [text, render] using ih

theorem fits_text (s : List Char) : Fits (text s) [] := by
  induction s with
  | nil => rfl
  | cons c s ih => exact ih

/-! ## What a needle can meet -/

/-- The characters of a conversion. -/
def chars (kind c : Char) : Bool :=
  if kind = 's' then true
  else if kind = 'p' then isHex c || "x(nil)".toList.contains c
  else if kind = 'x' || kind = 'X' then isHex c
  else c.isDigit || c = '-'

theorem mem_pad {width : Nat} {digits : List Char} {c : Char} (h : c ∈ pad width digits) :
    c = '0' ∨ c ∈ digits := by
  rw [pad, List.mem_append] at h
  rcases h with h | h
  · exact Or.inl (List.eq_of_mem_replicate h)
  · exact Or.inr h

theorem isHex_upper {n : Nat} {c : Char} (h : c ∈ (Nat.toDigits 16 n).map Char.toUpper) :
    isHex c = true := by
  obtain ⟨c, hc, rfl⟩ := List.mem_map.mp h
  obtain ⟨d, rfl⟩ := exists_digit_of_mem_toDigits hc
  have hall : ∀ d : Fin 16, isHex (Nat.digitChar d).toUpper = true := by decide
  exact hall d

theorem chars_number {kind : Char} {width : Nat} {n : Int} {c : Char} (hkind : kind ≠ 's')
    (h : c ∈ number kind width n) : chars kind c = true := by
  rw [number] at h
  rw [chars, if_neg hkind]
  split_ifs at h with hp hn hx hX
  · rw [if_pos hp, Bool.or_eq_true]
    right
    exact List.elem_eq_true_of_mem (List.mem_cons_of_mem 'x' h)
  · rw [if_pos hp, Bool.or_eq_true]
    rcases List.mem_cons.mp h with rfl | h
    · exact Or.inl (by decide)
    · rcases List.mem_cons.mp h with rfl | h
      · exact Or.inr (by decide)
      · exact Or.inl (isHex_of_mem_toDigits h)
  · rw [if_neg hp, if_pos (by simp [hx])]
    rcases mem_pad h with rfl | h
    · decide
    · exact isHex_of_mem_toDigits h
  · rw [if_neg hp, if_pos (by simp [hX])]
    rcases mem_pad h with rfl | h
    · decide
    · exact isHex_upper h
  · rw [if_neg hp, if_neg (by simp [hx, hX]), Bool.or_eq_true, decide_eq_true_eq]
    rcases mem_pad h with rfl | h
    · exact Or.inl (by decide)
    · rw [decimal] at h
      split at h
      · rcases List.mem_cons.mp h with rfl | h
        · exact Or.inr rfl
        · exact Or.inl (Nat.isDigit_of_mem_toDigits (by decide) (by decide) h)
      · exact Or.inl (Nat.isDigit_of_mem_toDigits (by decide) (by decide) h)

/-- Some text of the directives, and of what follows them, may start with the needle. -/
def mayMatch : List Directive → List Char → Bool
  | [], _ => true
  | .lit _ :: _, [] => true
  | .lit d :: ds, c :: needle => c == d && mayMatch ds needle
  | .conv kind _ :: ds, needle => (List.range (needle.length + 1)).any fun i =>
      (needle.take i).all (chars kind) && mayMatch ds (needle.drop i)

theorem mayMatch_nil (ds : List Directive) : mayMatch ds [] = true := by
  induction ds with
  | nil => rfl
  | cons d ds ih =>
      cases d with
      | lit c => rfl
      | conv kind width => simp [mayMatch, ih]

theorem chars_text {kind : Char} {width : Nat} {a : Arg} (ha : decide (kind = 's') = a.isStr) {c : Char}
    (hc : c ∈ a.text kind width) : chars kind c = true := by
  cases a with
  | str s => rw [chars, if_pos (of_decide_eq_true ha)]
  | num n => exact chars_number (of_decide_eq_false ha) hc

theorem mayMatch_of_prefix {ds : List Directive} {as : List Arg} {needle t : List Char}
    (hfits : Fits ds as) (h : needle <+: render ds as ++ t) : mayMatch ds needle = true := by
  induction ds generalizing needle as with
  | nil => rfl
  | cons d ds ih =>
      cases d with
      | lit d =>
          cases needle with
          | nil => rfl
          | cons c needle =>
              rw [render, List.cons_append, List.cons_prefix_cons] at h
              rw [mayMatch, h.1, ih hfits h.2]
              simp
      | conv kind width =>
          obtain ⟨a, as, rfl, ha, hrest⟩ := fits_conv hfits
          rw [render, List.append_assoc] at h
          rw [mayMatch, List.any_eq_true]
          -- the needle ends in the argument, or goes on after it
          rcases List.prefix_or_prefix_of_prefix h (List.prefix_append _ _) with hin | hout
          · refine ⟨needle.length, by simp, ?_⟩
            rw [List.take_length, List.drop_length, mayMatch_nil, Bool.and_true, List.all_eq_true]
            exact fun c hc => chars_text ha (hin.subset hc)
          · obtain ⟨v, rfl⟩ := hout
            refine ⟨(a.text kind width).length, by
              rw [List.mem_range, List.length_append]
              omega, ?_⟩
            rw [List.take_left, List.drop_left, Bool.and_eq_true, List.all_eq_true]
            exact ⟨fun c hc => chars_text ha hc, ih hrest ((List.prefix_append_right_inj _).mp h)⟩

/-- The needle starts nowhere in the text of the directives. In a string argument it can start only
if it goes on after it. -/
def clear (needle : List Char) : List Directive → Bool
  | [] => true
  | .lit c :: ds => !mayMatch (.lit c :: ds) needle && clear needle ds
  | .conv kind _ :: ds =>
      ((List.range needle.length).all fun i =>
        (decide (kind = 's') && decide (i + 1 = needle.length)) ||
        !((needle.take (i + 1)).all (chars kind) && mayMatch ds (needle.drop (i + 1)))) &&
      clear needle ds

/-- No string argument contains the needle. -/
def Avoid (needle : List Char) (as : List Arg) : Prop := ∀ s, Arg.str s ∈ as → ¬ needle <:+: s

/-- Where a needle that starts in an argument ends: not in the argument, and not after it. -/
theorem skips_arg {needle : List Char} (hne : needle ≠ []) {kind : Char} {width : Nat}
    {ds : List Directive} {a : Arg} {as : List Arg} (ha : decide (kind = 's') = a.isStr)
    (hrest : Fits ds as) (havoid : ∀ s, a = .str s → ¬ needle <:+: s)
    (hclear : ∀ i ∈ List.range needle.length,
      ((decide (kind = 's') && decide (i + 1 = needle.length)) ||
        !((needle.take (i + 1)).all (chars kind) && mayMatch ds (needle.drop (i + 1)))) = true)
    (t : List Char) : Skips needle (a.text kind width) (render ds as ++ t) := by
  intro x y hxy hy hpre
  have hchars : y.all (chars kind) = true := List.all_eq_true.mpr fun c hc =>
    chars_text ha (by rw [hxy]; exact List.mem_append_right x hc)
  have hinside : ¬ needle <+: y := by
    intro hin
    have hpos : 0 < needle.length := List.length_pos_iff.mpr hne
    have hlen : needle.length - 1 + 1 = needle.length := by omega
    have hat := hclear (needle.length - 1) (List.mem_range.mpr (by omega))
    cases a with
    | str s =>
        refine havoid s rfl ?_
        rw [show s = x ++ y from hxy]
        exact hin.isInfix.trans (List.suffix_append x y).isInfix
    | num n =>
        have hall : needle.all (chars kind) = true :=
          List.all_eq_true.mpr fun c hc => List.all_eq_true.mp hchars c (hin.subset hc)
        rw [ha, hlen, List.take_length, List.drop_length, mayMatch_nil, hall] at hat
        simp [Arg.isStr] at hat
  rcases List.prefix_or_prefix_of_prefix hpre (List.prefix_append _ _) with hin | hout
  · exact hinside hin
  · obtain ⟨v, rfl⟩ := hout
    have hypos : 0 < y.length := List.length_pos_iff.mpr hy
    have hlen : y.length - 1 + 1 = y.length := by omega
    have hv : v ≠ [] := by
      rintro rfl
      exact hinside (by simp)
    have hvpos : 0 < v.length := List.length_pos_iff.mpr hv
    have hat := hclear (y.length - 1) (by simp; omega)
    rw [hlen, List.take_left, List.drop_left, hchars,
      mayMatch_of_prefix hrest ((List.prefix_append_right_inj _).mp hpre)] at hat
    simp [hv] at hat

theorem skips_of_clear {needle : List Char} (hne : needle ≠ []) {ds : List Directive} {as : List Arg}
    (hfits : Fits ds as) (hclear : clear needle ds = true) (havoid : Avoid needle as) (t : List Char) :
    Skips needle (render ds as) t := by
  induction ds generalizing as with
  | nil => exact Skips.nil needle t
  | cons d ds ih =>
      cases d with
      | lit c =>
          rw [clear, Bool.and_eq_true] at hclear
          refine Skips.cons ?_ (ih hfits hclear.2 havoid)
          intro hpre
          have hmay : mayMatch (.lit c :: ds) needle = true := mayMatch_of_prefix hfits hpre
          rw [hmay] at hclear
          exact absurd hclear.1 (by decide)
      | conv kind width =>
          obtain ⟨a, as, rfl, ha, hrest⟩ := fits_conv hfits
          rw [clear, Bool.and_eq_true, List.all_eq_true] at hclear
          refine Skips.append (skips_arg hne ha hrest ?_ hclear.1 t) (ih hrest hclear.2 ?_)
          · rintro s rfl
            exact havoid s List.mem_cons_self
          · exact fun s hs => havoid s (List.mem_cons_of_mem _ hs)

/-- A printed text contains no needle that its directives are clear of. -/
theorem not_infix_of_clear {needle : List Char} (hne : needle ≠ []) {ds : List Directive}
    {as : List Arg} (hfits : Fits ds as) (hclear : clear needle ds = true)
    (havoid : Avoid needle as) : ¬ needle <:+: render ds as := by
  rintro ⟨x, y, hxy⟩
  refine skips_of_clear hne hfits hclear havoid [] x (needle ++ y) (by simpa using hxy.symm) ?_ ?_
  · simp [hne]
  · simp

/-- The last argument may be a string if some character ends the text. -/
theorem not_infix_of_clear_lit {needle : List Char} (hne : needle ≠ []) {ds : List Directive}
    {as : List Arg} (hfits : Fits ds as) (c : Char) (hclear : clear needle (ds ++ [.lit c]) = true)
    (havoid : Avoid needle as) : ¬ needle <:+: render ds as := by
  have hlit : Fits [Directive.lit c] [] := rfl
  have hend := not_infix_of_clear hne (hfits.append hlit) hclear (by rwa [List.append_nil])
  rw [render_append hfits] at hend
  exact fun h => hend (h.trans (List.prefix_append _ _).isInfix)

end Printf
