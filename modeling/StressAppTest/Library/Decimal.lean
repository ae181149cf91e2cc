import Mathlib.Algebra.Group.Int.Defs
import Mathlib.Data.List.TakeWhile
import StressAppTest.Library.Text

/-!
# Decimal numbers in text

`strtol` in base 10, with the position it stops at and the range error. `IsDecimal` is the grammar of
the texts that it reads to their end (`strtol10_of_isDecimal`, `isDecimal_of_consumed`).
-/

namespace Text

/-- `isdigit` -/
def isDigit (c : Char) : Bool := '0' ≤ c && c ≤ '9'

/-- The value of a run of digits. -/
def decimalNumber (digits : List Char) : Nat :=
  digits.foldl (fun n c => 10 * n + (c.toNat - '0'.toNat)) 0

/-- A sign, and whether it is a minus. -/
def readSign : List Char → Bool × List Char
  | '-' :: text => (true, text)
  | '+' :: text => (false, text)
  | text => (false, text)

/-- What `strtol(text, &end, 10)` gives: the value, `end - text`, and whether `errno` is set. -/
structure Strtol where
  value : Int
  endPos : Nat
  errno : Bool

/-- A number in the range of `long`, or the end of the range next to it. -/
def Strtol.ofInt (n : Int) (endPos : Nat) : Strtol :=
  if n < -2 ^ 63 then ⟨-2 ^ 63, endPos, true⟩
  else if 2 ^ 63 ≤ n then ⟨2 ^ 63 - 1, endPos, true⟩
  else ⟨n, endPos, false⟩

/-- `strtol(text, &end, 10)` -/
def strtol10 (text : List Char) : Strtol :=
  let sign := readSign (text.dropWhile isSpace)
  let digits := sign.2.takeWhile isDigit
  if digits = [] then ⟨0, 0, false⟩
  else
    Strtol.ofInt (if sign.1 then -decimalNumber digits else decimalNumber digits)
      (text.length - (sign.2.dropWhile isDigit).length)

/-- The value of a run of octal digits. -/
def octalNumber (digits : List Char) : Nat :=
  digits.foldl (fun n c => 8 * n + (c.toNat - '0'.toNat)) 0

/-- The number at the start of a text, where the prefix chooses the base, and 0 if there is none. -/
def prefixedNumber (text : List Char) : Nat :=
  match text with
  | '0' :: x :: c :: digits =>
      if (x = 'x' || x = 'X') && isHex c then hexNumber ((c :: digits).takeWhile isHex)
      else octalNumber (text.takeWhile fun c => '0' ≤ c && c ≤ '7')
  | '0' :: _ => octalNumber (text.takeWhile fun c => '0' ≤ c && c ≤ '7')
  | _ => decimalNumber (text.takeWhile isDigit)

/-- `strtoull(text, NULL, 0)` -/
def strtoull0 (text : List Char) : Nat :=
  let sign := readSign (text.dropWhile isSpace)
  toULL sign.1 (prefixedNumber sign.2)

/-- The text is this number: white space, a sign and digits. -/
def IsDecimal (text : List Char) (n : Int) : Prop :=
  ∃ spaces sign digits, text = spaces ++ (sign ++ digits) ∧ (∀ c ∈ spaces, isSpace c = true) ∧
    digits ≠ [] ∧ (∀ c ∈ digits, isDigit c = true) ∧
    ((sign = [] ∨ sign = ['+']) ∧ n = decimalNumber digits ∨
      sign = ['-'] ∧ n = -decimalNumber digits)

@[simp] theorem Strtol.ofInt_endPos (n : Int) (endPos : Nat) : (Strtol.ofInt n endPos).endPos = endPos := by
  unfold Strtol.ofInt
  split
  · rfl
  · split <;> rfl

theorem Strtol.ofInt_of_range {n : Int} (hlow : -2 ^ 63 ≤ n) (hhigh : n < 2 ^ 63) (endPos : Nat) :
    Strtol.ofInt n endPos = ⟨n, endPos, false⟩ := by
  rw [Strtol.ofInt, if_neg (by omega), if_neg (by omega)]

theorem Strtol.value_of_errno {n : Int} {endPos : Nat} (h : (Strtol.ofInt n endPos).errno = false) :
    (Strtol.ofInt n endPos).value = n := by
  unfold Strtol.ofInt at h ⊢
  split at h
  · cases h
  · split at h
    · cases h
    · next hlow hhigh => rw [if_neg hlow, if_neg hhigh]

theorem digit_range {c : Char} (h : isDigit c = true) : 48 ≤ c.toNat ∧ c.toNat ≤ 57 := by
  have hle (a b : Char) : a ≤ b ↔ a.toNat ≤ b.toNat := UInt32.le_iff_toNat_le
  rw [isDigit, Bool.and_eq_true, decide_eq_true_eq, decide_eq_true_eq, hle, hle] at h
  exact h

theorem space_range {c : Char} (h : isSpace c = true) : c.toNat ≤ 32 := by
  have hle (a b : Char) : a ≤ b ↔ a.toNat ≤ b.toNat := UInt32.le_iff_toNat_le
  rw [isSpace, Bool.or_eq_true, decide_eq_true_eq, Bool.and_eq_true, decide_eq_true_eq,
    decide_eq_true_eq, hle, hle] at h
  rcases h with rfl | ⟨-, h⟩
  · exact Nat.le_refl 32
  · exact h.trans (by decide)

/-- A digit is no sign. -/
theorem readSign_digits {c : Char} {text : List Char} (hc : isDigit c = true) :
    readSign (c :: text) = (false, c :: text) := by
  unfold readSign
  split
  · next heq =>
    cases heq
    exact absurd hc (by decide)
  · next heq =>
    cases heq
    exact absurd hc (by decide)
  · rfl

/-- A sign is taken off its digits. -/
theorem readSign_append {sign digits : List Char} {n : Int} (hne : digits ≠ [])
    (hdigits : ∀ c ∈ digits, isDigit c = true)
    (hsign : (sign = [] ∨ sign = ['+']) ∧ n = decimalNumber digits ∨
      sign = ['-'] ∧ n = -decimalNumber digits) :
    (sign ++ digits).dropWhile isSpace = sign ++ digits ∧ (readSign (sign ++ digits)).2 = digits ∧
      n = if (readSign (sign ++ digits)).1 then -(decimalNumber digits : Int) else decimalNumber digits := by
  rcases hsign with ⟨rfl | rfl, rfl⟩ | ⟨rfl, rfl⟩
  · obtain ⟨d, ds, rfl⟩ := List.exists_cons_of_ne_nil hne
    have hd := hdigits d List.mem_cons_self
    have hspace : ¬ isSpace d = true := fun hspace => by
      have hlow := (digit_range hd).1
      have hhigh := space_range hspace
      omega
    rw [List.nil_append, readSign_digits hd, List.dropWhile_cons_of_neg hspace]
    exact ⟨rfl, rfl, rfl⟩
  · exact ⟨rfl, rfl, rfl⟩
  · exact ⟨rfl, rfl, rfl⟩

/-- A number is read to its end. -/
theorem strtol10_of_isDecimal {text : List Char} {n : Int} (h : IsDecimal text n) :
    text ≠ [] ∧ strtol10 text = Strtol.ofInt n text.length := by
  obtain ⟨spaces, sign, digits, rfl, hspaces, hne, hdigits, hsign⟩ := h
  obtain ⟨hdrop, hrest, hn⟩ := readSign_append hne hdigits hsign
  refine ⟨by simp [hne], ?_⟩
  rw [strtol10, List.dropWhile_append_of_pos hspaces, hdrop]
  simp only [hrest]
  rw [List.takeWhile_eq_self_iff.mpr hdigits, List.dropWhile_eq_nil_iff.mpr hdigits, if_neg hne, ← hn]
  rfl

/-- A text with its sign. -/
theorem readSign_cases (text : List Char) : ∃ sign, text = sign ++ (readSign text).2 ∧
    ((readSign text).1 = false ∧ (sign = [] ∨ sign = ['+']) ∨
      (readSign text).1 = true ∧ sign = ['-']) := by
  unfold readSign
  split
  · exact ⟨['-'], rfl, Or.inr ⟨rfl, rfl⟩⟩
  · exact ⟨['+'], rfl, Or.inl ⟨rfl, Or.inr rfl⟩⟩
  · exact ⟨[], rfl, Or.inl ⟨rfl, Or.inl rfl⟩⟩

/-- What is read to its end is a number. -/
theorem isDecimal_of_consumed {text : List Char} (hpos : (strtol10 text).endPos ≠ 0)
    (hend : text.drop (strtol10 text).endPos = []) : ∃ n, IsDecimal text n := by
  obtain ⟨sign, htext, hsign⟩ := readSign_cases (text.dropWhile isSpace)
  have hsplit := List.takeWhile_append_dropWhile (p := isSpace) (l := text)
  rw [strtol10] at hpos hend
  generalize readSign (text.dropWhile isSpace) = r at htext hsign hpos hend
  by_cases hdigits : r.2.takeWhile isDigit = []
  · rw [if_pos hdigits] at hpos
    exact absurd rfl hpos
  simp only [if_neg hdigits, Strtol.ofInt_endPos] at hpos hend
  rw [List.drop_eq_nil_iff] at hend
  -- nothing is left after the digits
  have hrest : r.2.dropWhile isDigit = [] := List.length_eq_zero_iff.mp (by omega)
  have hall := List.dropWhile_eq_nil_iff.mp hrest
  have hne : r.2 ≠ [] := fun hnil => hdigits (by rw [hnil]; rfl)
  have hspaces : ∀ c ∈ text.takeWhile isSpace, isSpace c = true := fun c hc =>
    List.mem_takeWhile_imp hc
  rw [htext] at hsplit
  rcases hsign with ⟨-, hplus⟩ | ⟨-, hminus⟩
  · exact ⟨decimalNumber r.2, _, sign, r.2, hsplit.symm, hspaces, hne, hall, Or.inl ⟨hplus, rfl⟩⟩
  · exact ⟨-decimalNumber r.2, _, sign, r.2, hsplit.symm, hspaces, hne, hall, Or.inr ⟨hminus, rfl⟩⟩

end Text
