import Mathlib.Algebra.Ring.Nat
import Mathlib.Data.List.Infix

/-!
# Searching in text

`std::string::find` and `rfind` on lists of characters, and reading a hexadecimal number as
`strtoull` does. `Skips needle p t` says that `needle` does not start inside `p` when `t` follows;
a search then jumps over `p`.
-/

namespace Text

/-- `text.find(needle)` -/
def find (needle : List Char) : List Char → Option Nat
  | [] => if needle = [] then some 0 else none
  | c :: text =>
      if needle.isPrefixOf (c :: text) then some 0 else (find needle text).map (· + 1)

/-- `text.find(needle, pos)` -/
def findFrom (needle text : List Char) (pos : Nat) : Option Nat :=
  if text.length < pos then none else (find needle (text.drop pos)).map (pos + ·)

/-- `text.rfind(needle)` -/
def rfind (needle : List Char) : List Char → Option Nat
  | [] => if needle = [] then some 0 else none
  | c :: text =>
      match rfind needle text with
      | some i => some (i + 1)
      | none => if needle.isPrefixOf (c :: text) then some 0 else none

/-- `needle` does not start inside `p` when `t` follows. -/
def Skips (needle p t : List Char) : Prop :=
  ∀ a b, p = a ++ b → b ≠ [] → ¬ needle <+: b ++ t

theorem Skips.nil (needle t : List Char) : Skips needle [] t := by
  intro a b hab hb
  exact absurd (List.append_eq_nil_iff.mp hab.symm).2 hb

theorem Skips.cons {needle p t : List Char} {c : Char} (hhead : ¬ needle <+: c :: (p ++ t))
    (h : Skips needle p t) : Skips needle (c :: p) t := by
  intro a b hab hb
  cases a with
  | nil =>
      rw [List.nil_append] at hab
      rw [← hab]
      exact hhead
  | cons x a =>
      rw [List.cons_append, List.cons.injEq] at hab
      exact h a b hab.2 hb

theorem Skips.of_cons {needle p t : List Char} {c : Char} (h : Skips needle (c :: p) t) :
    ¬ needle <+: c :: (p ++ t) ∧ Skips needle p t :=
  ⟨h [] (c :: p) rfl (List.cons_ne_nil c p), fun a b hab hb => h (c :: a) b (by rw [hab]; rfl) hb⟩

theorem Skips.append {needle p q t : List Char} (hp : Skips needle p (q ++ t))
    (hq : Skips needle q t) : Skips needle (p ++ q) t := by
  induction p with
  | nil => exact hq
  | cons c p ih =>
      obtain ⟨hhead, hrest⟩ := hp.of_cons
      rw [List.cons_append]
      refine Skips.cons ?_ (ih hrest)
      rwa [List.append_assoc]

theorem find_append {needle p t : List Char} (h : Skips needle p t) :
    find needle (p ++ t) = (find needle t).map (p.length + ·) := by
  induction p with
  | nil => simp
  | cons c p ih =>
      obtain ⟨hhead, hrest⟩ := h.of_cons
      rw [List.cons_append, find, if_neg (by simpa using hhead), ih hrest]
      cases find needle t with
      | none => rfl
      | some i => simp [Nat.add_right_comm]

theorem find_self (needle t : List Char) : find needle (needle ++ t) = some 0 := by
  cases needle with
  | nil =>
      cases t with
      | nil => rfl
      | cons c t => simp [find]
  | cons c needle => simp [find]

/-- The first occurrence of the needle. -/
theorem find_of_skips {needle p t : List Char} (h : Skips needle p (needle ++ t)) :
    find needle (p ++ (needle ++ t)) = some p.length := by
  rw [find_append h, find_self]
  rfl

theorem findFrom_of_skips {needle s p t : List Char} (h : Skips needle p (needle ++ t)) :
    findFrom needle (s ++ (p ++ (needle ++ t))) s.length = some (s.length + p.length) := by
  rw [findFrom, if_neg (by simp), List.drop_left, find_of_skips h]
  rfl

theorem rfind_none {needle t : List Char} (hne : needle ≠ []) (h : Skips needle t []) :
    rfind needle t = none := by
  induction t with
  | nil => simp [rfind, hne]
  | cons c t ih =>
      obtain ⟨hhead, hrest⟩ := h.of_cons
      rw [rfind, ih hrest]
      rw [List.append_nil] at hhead
      simp [hhead]

theorem rfind_append {needle p t : List Char} {i : Nat} (h : rfind needle t = some i) :
    rfind needle (p ++ t) = some (p.length + i) := by
  induction p with
  | nil => simpa using h
  | cons c p ih => simp [rfind, ih, Nat.add_right_comm]

/-- The last occurrence of the needle. -/
theorem rfind_of_skips {needle p t : List Char} (hne : needle ≠ [])
    (h : Skips needle (needle.tail ++ t) []) : rfind needle (p ++ (needle ++ t)) = some p.length := by
  have hlast : rfind needle (needle ++ t) = some 0 := by
    obtain ⟨c, cs, rfl⟩ := List.exists_cons_of_ne_nil hne
    rw [List.tail_cons] at h
    rw [List.cons_append, rfind, rfind_none hne h]
    simp
  simpa using rfind_append (p := p) hlast

/-! ## Hexadecimal numbers -/

/-- The value of a hexadecimal digit. -/
def hexValue (c : Char) : Option Nat :=
  if '0' ≤ c ∧ c ≤ '9' then some (c.toNat - '0'.toNat)
  else if 'a' ≤ c ∧ c ≤ 'f' then some (c.toNat - 'a'.toNat + 10)
  else if 'A' ≤ c ∧ c ≤ 'F' then some (c.toNat - 'A'.toNat + 10)
  else none

def isHex (c : Char) : Bool := (hexValue c).isSome

/-- `isspace` in the C locale. -/
def isSpace (c : Char) : Bool := c = ' ' || ('\t' ≤ c && c ≤ '\r')

/-- The value of a run of digits. -/
def hexNumber (digits : List Char) : Nat :=
  digits.foldl (fun n c => 16 * n + (hexValue c).getD 0) 0

/-- The text without an optional `0x`, which must be followed by a digit. -/
def skipBase : List Char → List Char
  | '0' :: x :: c :: text => if (x = 'x' || x = 'X') && isHex c then c :: text else '0' :: x :: c :: text
  | text => text

/-- The number that follows, and `none` if there is no digit. -/
def readNumber (text : List Char) : Option Nat :=
  let digits := (skipBase text).takeWhile isHex
  if digits = [] then none else some (hexNumber digits)

/-- Too large a value gives `ULLONG_MAX`; a minus sign negates in `unsigned long long`. -/
def toULL (negative : Bool) (n : Nat) : Nat :=
  if 2 ^ 64 ≤ n then 2 ^ 64 - 1 else if negative then (2 ^ 64 - n) % 2 ^ 64 else n

/-- `strtoull(text, &end, 16)`, and `none` for `end == text`. -/
def strtoull16 (text : List Char) : Option Nat :=
  match text.dropWhile isSpace with
  | '-' :: text => (readNumber text).map (toULL true)
  | '+' :: text => (readNumber text).map (toULL false)
  | text => (readNumber text).map (toULL false)

theorem hexNumber_append (l : List Char) (c : Char) :
    hexNumber (l ++ [c]) = 16 * hexNumber l + (hexValue c).getD 0 := by
  simp [hexNumber]

theorem hexValue_digitChar : ∀ d : Fin 16, hexValue (Nat.digitChar d) = some (d : Nat) := by decide

theorem exists_digit_of_mem_toDigits {n : Nat} {c : Char} (h : c ∈ Nat.toDigits 16 n) :
    ∃ d : Fin 16, c = Nat.digitChar d := by
  induction n using Nat.strongRecOn with
  | ind n ih =>
      rw [Nat.toDigits_eq_if (by decide)] at h
      split at h
      · next hlt => exact ⟨⟨n, hlt⟩, List.mem_singleton.mp h⟩
      · next hge =>
        rcases List.mem_append.mp h with h | h
        · exact ih (n / 16) (by omega) h
        · exact ⟨⟨n % 16, Nat.mod_lt _ (by decide)⟩, List.mem_singleton.mp h⟩

theorem isHex_of_mem_toDigits {n : Nat} {c : Char} (h : c ∈ Nat.toDigits 16 n) : isHex c = true := by
  obtain ⟨d, rfl⟩ := exists_digit_of_mem_toDigits h
  rw [isHex, hexValue_digitChar d]
  rfl

theorem hexNumber_toDigits (n : Nat) : hexNumber (Nat.toDigits 16 n) = n := by
  induction n using Nat.strongRecOn with
  | ind n ih =>
      rw [Nat.toDigits_eq_if (by decide)]
      split
      · next hlt => simp [hexNumber, hexValue_digitChar ⟨n, hlt⟩]
      · next hge =>
        rw [hexNumber_append, ih (n / 16) (by omega),
          hexValue_digitChar ⟨n % 16, Nat.mod_lt _ (by decide)⟩]
        simp only [Option.getD_some]
        omega

theorem hexNumber_replicate_zero (k : Nat) (l : List Char) :
    hexNumber (List.replicate k '0' ++ l) = hexNumber l := by
  induction k with
  | zero => rfl
  | succ k ih => simpa [List.replicate_succ, hexNumber, hexValue] using ih

theorem not_x_of_isHex {d : Char} (h : isHex d = true) : d ≠ 'x' ∧ d ≠ 'X' := by
  constructor <;> rintro rfl <;> exact absurd h (by decide)

theorem not_isSpace_of_isHex {d : Char} (h : isHex d = true) : isSpace d = false := by
  have hle (a b : Char) : a ≤ b ↔ a.toNat ≤ b.toNat := UInt32.le_iff_toNat_le
  by_contra hcon
  have hspace : d.toNat ≤ 32 := by
    simp only [isSpace, Bool.not_eq_false, Bool.or_eq_true, decide_eq_true_eq, Bool.and_eq_true] at hcon
    rcases hcon with rfl | ⟨-, hcon⟩
    · exact le_rfl
    · exact ((hle d '\r').mp hcon).trans (by decide)
  have hbig {c : Char} (hc : 32 < c.toNat) : ¬ c ≤ d := fun hcd =>
    absurd (((hle c d).mp hcd).trans hspace) (Nat.not_le.mpr hc)
  have hnone : hexValue d = none := by
    rw [hexValue, if_neg fun h => hbig (by decide) h.1, if_neg fun h => hbig (by decide) h.1,
      if_neg fun h => hbig (by decide) h.1]
  rw [isHex, hnone] at h
  exact absurd h (by decide)

/-- Digits that end before a character other than `x` have no base to skip. -/
theorem skipBase_digits {digits t : List Char} {c : Char} (hne : digits ≠ [])
    (hdigits : ∀ d ∈ digits, isHex d = true) (hc : c ≠ 'x' ∧ c ≠ 'X') :
    skipBase (digits ++ c :: t) = digits ++ c :: t := by
  unfold skipBase
  split
  · next x y text heq =>
    have hx : x ≠ 'x' ∧ x ≠ 'X' := by
      match digits, hne, hdigits, heq with
      | [d], _, _, heq =>
          simp only [List.cons_append, List.nil_append, List.cons.injEq] at heq
          rw [← heq.2.1]
          exact hc
      | d :: d' :: digits, _, hdigits, heq =>
          simp only [List.cons_append, List.cons.injEq] at heq
          rw [← heq.2.1]
          exact not_x_of_isHex (hdigits d' (by simp))
    rw [if_neg (by simp [hx.1, hx.2])]
    exact heq.symm
  · rfl

theorem takeWhile_digits {digits t : List Char} {c : Char} (hdigits : ∀ d ∈ digits, isHex d = true)
    (hc : isHex c = false) : (digits ++ c :: t).takeWhile isHex = digits := by
  rw [List.takeWhile_append_of_pos hdigits, List.takeWhile_cons_of_neg (by simp [hc]), List.append_nil]

/-- **A printed number is read back**, whatever follows it that does not look like a digit. -/
theorem strtoull16_digits {digits t : List Char} {c : Char} (hne : digits ≠ [])
    (hdigits : ∀ d ∈ digits, isHex d = true) (hc : isHex c = false) (hx : c ≠ 'x' ∧ c ≠ 'X')
    (hlt : hexNumber digits < 2 ^ 64) :
    strtoull16 (digits ++ c :: t) = some (hexNumber digits) := by
  have hread : readNumber (digits ++ c :: t) = some (hexNumber digits) := by
    simp only [readNumber, skipBase_digits hne hdigits hx, takeWhile_digits hdigits hc, if_neg hne]
  obtain ⟨d, ds, rfl⟩ := List.exists_cons_of_ne_nil hne
  have hd : isHex d = true := hdigits d List.mem_cons_self
  rw [strtoull16, List.cons_append,
    List.dropWhile_cons_of_neg (by simp [not_isSpace_of_isHex hd])]
  split
  · next heq =>
    rw [List.cons.injEq] at heq
    rw [heq.1] at hd
    exact absurd hd (by decide)
  · next heq =>
    rw [List.cons.injEq] at heq
    rw [heq.1] at hd
    exact absurd hd (by decide)
  · rw [← List.cons_append, hread, Option.map_some, toULL, if_neg (Nat.not_le.mpr hlt),
      if_neg Bool.false_ne_true]

end Text
