import Mathlib.Data.Fintype.Prod
import Mathlib.Data.Fintype.BigOperators
import Mathlib.Tactic.IntervalCases
import StressAppTest.Adler
import StressAppTest.Library.Loop

/-!
# SM8975 addresses (`sm8975_mapping.h`, `dram_address.h`)

A physical address is normalised to a controller address, whose bits are spread over channel,
chip select, subchannel, bank, row, column and byte offset; several of these are exclusive-ors
of scattered bits. Read in the order row, chip select, column, bank, subchannel, channel, the
fields give the bits of the address back one after the other (`bits_of_dramAddress`), so the
coordinates determine the low 34 bits, and by counting they take all values.
-/

namespace StressAppTest

/-- `Sm8975AddressBit` -/
def sm8975AddressBit (value : Word64) (bit : Nat) : Word32 := ((value >>> bit) &&& 1).setWidth 32

/-- `NormalizeSm8975Address` -/
def normalizeSm8975Address (rawAddress : Word64) : Word64 :=
  let decoded := if rawAddress < 0x100000000#64 then rawAddress - 0x80000000#64
    else rawAddress - 0x800000000#64
  decoded &&& 0xFFFFFFFFF#64

/-- `kRanges` of `Sm8975MatForRow`. -/
def matRanges : List (Word32 × Word32) :=
  [(0x000, 0x55F), (0x560, 0xABF), (0xAC0, 0x101F),
   (0x1020, 0x153F), (0x1540, 0x1A9F), (0x1AA0, 0x1FFF),
   (0x2000, 0x255F), (0x2560, 0x2ABF), (0x2AC0, 0x301F),
   (0x3020, 0x353F), (0x3540, 0x3A9F), (0x3AA0, 0x3FFF),
   (0x4000, 0x455F), (0x4560, 0x4ABF), (0x4AC0, 0x501F),
   (0x5020, 0x553F), (0x5540, 0x5A9F), (0x5AA0, 0x5FFF),
   (0x6000, 0x655F), (0x6560, 0x6ABF), (0x6AC0, 0x701F),
   (0x7020, 0x753F), (0x7540, 0x7A9F), (0x7AA0, 0x7FFF)]

/-- `Sm8975MatForRow` -/
def sm8975MatForRow (row : Word32) : Int :=
  match matRanges.findIdx? fun r => decide (r.1 ≤ row) && decide (row ≤ r.2) with
  | some i => i
  | none => -1

/-- `struct Sm8975Topology` -/
structure Sm8975Topology where
  channel : Word32
  chipSelect : Word32
  subchannel : Word32
  bank : Word32
  row : Word32
  mat : Int
  column : Word32
  normalizedAddress : Word64

/-- `topology->row`, collected bit by bit. -/
def sm8975Row (decoded : Word64) : Word32 :=
  forUpTo 15 (fun index row => row ||| sm8975AddressBit decoded (18 + index) <<< index) 0

/-- The equations of `DecodeSm8975Address`, on the normalised address. -/
def sm8975Topology (decoded : Word64) : Sm8975Topology :=
  let a := sm8975AddressBit decoded
  let ch0 := a 8
  let ch1 := a 9 ^^^ a 11 ^^^ a 13 ^^^ a 15 ^^^ a 17 ^^^ a 19
  let bk0 := a 16 ^^^ a 19 ^^^ a 20 ^^^ a 22 ^^^ a 24 ^^^ a 25 ^^^ a 26 ^^^ a 27 ^^^ a 31
  let bk1 := a 17 ^^^ a 20 ^^^ a 21 ^^^ a 23 ^^^ a 25 ^^^ a 26 ^^^ a 27 ^^^ a 28 ^^^ a 32
  let bk2 := a 7 ^^^ a 18 ^^^ a 21 ^^^ a 22 ^^^ a 24 ^^^ a 26 ^^^ a 27 ^^^ a 28 ^^^ a 29
  let bk3 := a 13 ^^^ a 18 ^^^ a 19 ^^^ a 21 ^^^ a 23 ^^^ a 24 ^^^ a 25 ^^^ a 26 ^^^ a 30
  { channel := ch1 <<< 1 ||| ch0
    chipSelect := a 32 ^^^ a 33
    subchannel := a 10 ^^^ a 11 ^^^ a 12 ^^^ a 13
    bank := bk3 <<< 3 ||| bk2 <<< 2 ||| bk1 <<< 1 ||| bk0
    row := sm8975Row decoded
    mat := sm8975MatForRow (sm8975Row decoded)
    column := a 15 <<< 5 ||| a 14 <<< 4 ||| a 12 <<< 3 ||| a 11 <<< 2 ||| a 6 <<< 1 ||| a 5
    normalizedAddress := decoded }

/-- `DecodeSm8975Address` -/
def decodeSm8975Address (rawAddress : Word64) : Sm8975Topology :=
  sm8975Topology (normalizeSm8975Address rawAddress)

/-- `enum DramAddressMapProfile` -/
inductive DramAddressMapProfile
  | none
  | sm8975Lp6
  deriving DecidableEq, Repr

/-- `struct DramAddress` -/
structure DramAddress where
  channel : Word32
  rank : Word32
  subchannel : Word32
  bankGroup : Word32
  bank : Word32
  row : Word32
  column : Word32
  byteOffset : Word32

/-- The coordinates `DecodeDramAddress` takes from a topology. -/
def Sm8975Topology.dramAddress (t : Sm8975Topology) : DramAddress where
  channel := t.channel
  rank := t.chipSelect
  subchannel := t.subchannel
  bankGroup := 0
  bank := t.bank
  row := t.row
  column := t.column
  byteOffset := (t.normalizedAddress &&& 0x1F).setWidth 32

/-- `DecodeDramAddress` -/
def decodeDramAddress (profile : DramAddressMapProfile) (physicalAddress : Word64) :
    Option DramAddress :=
  match profile with
  | .none => Option.none
  | .sm8975Lp6 => some (decodeSm8975Address physicalAddress).dramAddress

/-- The coordinates of a normalised address. -/
def dramAddress (decoded : Word64) : DramAddress := (sm8975Topology decoded).dramAddress

/-! ## Bits of the fields -/

/-- A word that is one bit. -/
def bitWord (b : Bool) : Word32 := if b then 1 else 0

theorem sm8975AddressBit_eq (value : Word64) (bit : Nat) :
    sm8975AddressBit value bit = bitWord (value.getLsbD bit) := by
  apply BitVec.eq_of_getLsbD_eq
  intro k _
  simp only [sm8975AddressBit, BitVec.getLsbD_setWidth, BitVec.getLsbD_and,
    BitVec.getLsbD_ushiftRight]
  by_cases hk : k = 0
  · subst hk
    cases h : value.getLsbD bit <;> simp [bitWord]
  · cases h : value.getLsbD bit <;> simp [bitWord, hk]

theorem bitWord_xor : ∀ b c : Bool, bitWord b ^^^ bitWord c = bitWord (b ^^ c) := by decide

theorem bitWord_inj : ∀ {b c : Bool}, bitWord b = bitWord c → b = c := by decide

theorem bitWord_lt : ∀ b : Bool, bitWord b < 2 := by decide

theorem channel_inj : ∀ {b₁ b₀ c₁ c₀ : Bool},
    bitWord b₁ <<< 1 ||| bitWord b₀ = bitWord c₁ <<< 1 ||| bitWord c₀ → b₁ = c₁ ∧ b₀ = c₀ := by decide

theorem channel_lt : ∀ b₁ b₀ : Bool, bitWord b₁ <<< 1 ||| bitWord b₀ < 4 := by decide

/-- A word of four bits. -/
def bankWord (b₃ b₂ b₁ b₀ : Bool) : Word32 :=
  bitWord b₃ <<< 3 ||| bitWord b₂ <<< 2 ||| bitWord b₁ <<< 1 ||| bitWord b₀

theorem bankWord_inj : ∀ {b₃ b₂ b₁ b₀ c₃ c₂ c₁ c₀ : Bool},
    bankWord b₃ b₂ b₁ b₀ = bankWord c₃ c₂ c₁ c₀ → b₃ = c₃ ∧ b₂ = c₂ ∧ b₁ = c₁ ∧ b₀ = c₀ := by decide

theorem bankWord_lt : ∀ b₃ b₂ b₁ b₀ : Bool, bankWord b₃ b₂ b₁ b₀ < 16 := by decide

/-- A word of six bits. -/
def columnWord (b₅ b₄ b₃ b₂ b₁ b₀ : Bool) : Word32 :=
  bitWord b₅ <<< 5 ||| bitWord b₄ <<< 4 ||| bitWord b₃ <<< 3 ||| bitWord b₂ <<< 2 |||
    bitWord b₁ <<< 1 ||| bitWord b₀

theorem columnWord_bits : ∀ b₅ b₄ b₃ b₂ b₁ b₀ : Bool,
    (columnWord b₅ b₄ b₃ b₂ b₁ b₀).getLsbD 5 = b₅ ∧ (columnWord b₅ b₄ b₃ b₂ b₁ b₀).getLsbD 4 = b₄ ∧
    (columnWord b₅ b₄ b₃ b₂ b₁ b₀).getLsbD 3 = b₃ ∧ (columnWord b₅ b₄ b₃ b₂ b₁ b₀).getLsbD 2 = b₂ ∧
    (columnWord b₅ b₄ b₃ b₂ b₁ b₀).getLsbD 1 = b₁ ∧ (columnWord b₅ b₄ b₃ b₂ b₁ b₀).getLsbD 0 = b₀ := by
  decide

theorem columnWord_inj {b₅ b₄ b₃ b₂ b₁ b₀ c₅ c₄ c₃ c₂ c₁ c₀ : Bool}
    (h : columnWord b₅ b₄ b₃ b₂ b₁ b₀ = columnWord c₅ c₄ c₃ c₂ c₁ c₀) :
    b₅ = c₅ ∧ b₄ = c₄ ∧ b₃ = c₃ ∧ b₂ = c₂ ∧ b₁ = c₁ ∧ b₀ = c₀ := by
  obtain ⟨h5, h4, h3, h2, h1, h0⟩ := columnWord_bits b₅ b₄ b₃ b₂ b₁ b₀
  rw [h] at h5 h4 h3 h2 h1 h0
  obtain ⟨k5, k4, k3, k2, k1, k0⟩ := columnWord_bits c₅ c₄ c₃ c₂ c₁ c₀
  exact ⟨h5.symm.trans k5, h4.symm.trans k4, h3.symm.trans k3, h2.symm.trans k2, h1.symm.trans k1,
    h0.symm.trans k0⟩

theorem columnWord_lt : ∀ b₅ b₄ b₃ b₂ b₁ b₀ : Bool, columnWord b₅ b₄ b₃ b₂ b₁ b₀ < 64 := by decide

theorem getLsbD_sm8975Row (v : Word64) (k : Nat) :
    (sm8975Row v).getLsbD k = (decide (k < 15) && v.getLsbD (18 + k)) := by
  have hbit (b : Bool) (k : Nat) : (bitWord b).getLsbD k = (decide (k = 0) && b) := by
    by_cases hk : k = 0
    · subst hk
      cases b <;> rfl
    · cases b <;> simp [bitWord, hk]
  have hloop : ∀ k, (sm8975Row v).getLsbD k = (decide (k < 15) && v.getLsbD (18 + k)) := by
    refine forUpTo_inv (fun n (row : Word32) => ∀ k, row.getLsbD k =
      (decide (k < n) && v.getLsbD (18 + k))) (fun k => by simp) ?_
    intro i hi row hrow k
    rw [BitVec.getLsbD_or, hrow, BitVec.getLsbD_shiftLeft, sm8975AddressBit_eq, hbit]
    rcases Nat.lt_trichotomy k i with hlt | rfl | hgt
    · simp [hlt, Nat.lt_succ_of_lt hlt]
    · have h32 : k < 32 := by omega
      simp [h32]
    · have hne : ¬ k - i = 0 := by omega
      simp [hne, Nat.not_lt.mpr hgt.le, Nat.not_lt.mpr (Nat.succ_le_of_lt hgt)]
  exact hloop k

/-- The fields in terms of the bits of the address. -/
theorem dramAddress_eq (v : Word64) : dramAddress v =
    let a := v.getLsbD
    { channel := bitWord (a 9 ^^ a 11 ^^ a 13 ^^ a 15 ^^ a 17 ^^ a 19) <<< 1 ||| bitWord (a 8)
      rank := bitWord (a 32 ^^ a 33)
      subchannel := bitWord (a 10 ^^ a 11 ^^ a 12 ^^ a 13)
      bankGroup := 0
      bank := bankWord
        (a 13 ^^ a 18 ^^ a 19 ^^ a 21 ^^ a 23 ^^ a 24 ^^ a 25 ^^ a 26 ^^ a 30)
        (a 7 ^^ a 18 ^^ a 21 ^^ a 22 ^^ a 24 ^^ a 26 ^^ a 27 ^^ a 28 ^^ a 29)
        (a 17 ^^ a 20 ^^ a 21 ^^ a 23 ^^ a 25 ^^ a 26 ^^ a 27 ^^ a 28 ^^ a 32)
        (a 16 ^^ a 19 ^^ a 20 ^^ a 22 ^^ a 24 ^^ a 25 ^^ a 26 ^^ a 27 ^^ a 31)
      row := sm8975Row v
      column := columnWord (a 15) (a 14) (a 12) (a 11) (a 6) (a 5)
      byteOffset := (v &&& 0x1F).setWidth 32 } := by
  simp only [dramAddress, Sm8975Topology.dramAddress, sm8975Topology, sm8975AddressBit_eq, bitWord_xor,
    bankWord, columnWord]

/-- **The coordinates give the address back.** Each field gives the bits that the fields before
it leave open. -/
theorem bits_of_dramAddress {v w : Word64} (h : dramAddress v = dramAddress w) {i : Nat}
    (hi : i < 34) : v.getLsbD i = w.getLsbD i := by
  rw [dramAddress_eq, dramAddress_eq] at h
  simp only [DramAddress.mk.injEq] at h
  obtain ⟨hch, hcs, hsc, -, hbk, hrow, hcol, hbyte⟩ := h
  have hrow (k : Nat) (hk : k < 15) : v.getLsbD (18 + k) = w.getLsbD (18 + k) := by
    have hr := congrArg (fun d => BitVec.getLsbD d k) hrow
    simpa [getLsbD_sm8975Row, hk] using hr
  have hbyte (k : Nat) (hk : k < 5) : v.getLsbD k = w.getLsbD k := by
    have hb := congrArg (fun d => BitVec.getLsbD d k) hbyte
    simp only [BitVec.getLsbD_setWidth, BitVec.getLsbD_and] at hb
    have hmask : (0x1F : Word64).getLsbD k = true := by interval_cases k <;> rfl
    have h32 : k < 32 := by omega
    rw [hmask, Bool.and_true, Bool.and_true] at hb
    simpa [h32] using hb
  obtain ⟨h15, h14, h12, h11, h6, h5⟩ := columnWord_inj hcol
  have h18 := hrow 0 (by omega)
  have h19 := hrow 1 (by omega)
  have h20 := hrow 2 (by omega)
  have h21 := hrow 3 (by omega)
  have h22 := hrow 4 (by omega)
  have h23 := hrow 5 (by omega)
  have h24 := hrow 6 (by omega)
  have h25 := hrow 7 (by omega)
  have h26 := hrow 8 (by omega)
  have h27 := hrow 9 (by omega)
  have h28 := hrow 10 (by omega)
  have h29 := hrow 11 (by omega)
  have h30 := hrow 12 (by omega)
  have h31 := hrow 13 (by omega)
  have h32 := hrow 14 (by omega)
  simp only [Nat.reduceAdd] at h18 h19 h20 h21 h22 h23 h24 h25 h26 h27 h28 h29 h30 h31 h32
  have h33 := bitWord_inj hcs
  obtain ⟨h13, h7, h17, h16⟩ := bankWord_inj hbk
  simp only [h18, h19, h20, h21, h22, h23, h24, h25, h26, h27, h28, h29, h30, h31, h32,
    Bool.xor_left_inj, Bool.xor_right_inj] at h33 h13 h7 h17 h16
  have h10 := bitWord_inj hsc
  obtain ⟨h9, h8⟩ := channel_inj hch
  simp only [h11, h12, h13, h15, h17, h19, Bool.xor_left_inj] at h10 h9
  interval_cases i <;> first | assumption | exact hbyte _ (by omega)

/-- The coordinates depend on the low 34 bits only. -/
theorem dramAddress_congr {v w : Word64} (h : ∀ i < 34, v.getLsbD i = w.getLsbD i) :
    dramAddress v = dramAddress w := by
  have hrow : sm8975Row v = sm8975Row w := by
    apply BitVec.eq_of_getLsbD_eq
    intro k _
    rw [getLsbD_sm8975Row, getLsbD_sm8975Row]
    by_cases hk : k < 15
    · rw [h (18 + k) (by omega)]
    · simp [hk]
  have hbyte : v &&& 0x1F = w &&& 0x1F := by
    apply BitVec.eq_of_getLsbD_eq
    intro k hk
    rw [BitVec.getLsbD_and, BitVec.getLsbD_and]
    by_cases hlt : k < 34
    · rw [h k hlt]
    · have hmask : (0x1F : Word64).getLsbD k = false := by interval_cases k <;> rfl
      rw [hmask, Bool.and_false, Bool.and_false]
  rw [dramAddress_eq, dramAddress_eq, hrow, hbyte]
  simp only [h 5 (by omega), h 6 (by omega), h 7 (by omega), h 8 (by omega), h 9 (by omega),
    h 10 (by omega), h 11 (by omega), h 12 (by omega), h 13 (by omega), h 14 (by omega),
    h 15 (by omega), h 16 (by omega), h 17 (by omega), h 18 (by omega), h 19 (by omega),
    h 20 (by omega), h 21 (by omega), h 22 (by omega), h 23 (by omega), h 24 (by omega),
    h 25 (by omega), h 26 (by omega), h 27 (by omega), h 28 (by omega), h 29 (by omega),
    h 30 (by omega), h 31 (by omega), h 32 (by omega), h 33 (by omega)]

theorem bits_eq_iff_mod {v w : Word64} {n : Nat} :
    (∀ i < n, v.getLsbD i = w.getLsbD i) ↔ v.toNat % 2 ^ n = w.toNat % 2 ^ n := by
  constructor
  · intro h
    apply Nat.eq_of_testBit_eq
    intro i
    rw [Nat.testBit_mod_two_pow, Nat.testBit_mod_two_pow]
    by_cases hi : i < n
    · exact congrArg (decide (i < n) && ·) (h i hi)
    · simp [hi]
  · intro h i hi
    have hbit := congrArg (fun x => Nat.testBit x i) h
    simp only [Nat.testBit_mod_two_pow, hi, decide_true, Bool.true_and] at hbit
    exact hbit

theorem dramAddress_eq_iff {v w : Word64} :
    dramAddress v = dramAddress w ↔ v.toNat % 2 ^ 34 = w.toNat % 2 ^ 34 := by
  rw [← bits_eq_iff_mod]
  exact ⟨fun h _ hi => bits_of_dramAddress h hi, dramAddress_congr⟩

/-! ## Ranges -/

/-- Coordinates of an existing cell. -/
structure DramAddress.InRange (d : DramAddress) : Prop where
  channel : d.channel < 4
  rank : d.rank < 2
  subchannel : d.subchannel < 2
  bankGroup : d.bankGroup = 0
  bank : d.bank < 16
  row : d.row < 0x8000
  column : d.column < 64
  byteOffset : d.byteOffset < 32

theorem sm8975Row_lt (v : Word64) : sm8975Row v < 0x8000 := by
  have hlt : (sm8975Row v).toNat < 2 ^ 15 := by
    apply Nat.lt_pow_two_of_testBit
    intro k hk
    have hge : ¬ k < 15 := by omega
    exact (getLsbD_sm8975Row v k).trans (by simp [hge])
  exact BitVec.lt_def.mpr hlt

theorem dramAddress_inRange (v : Word64) : (dramAddress v).InRange := by
  rw [dramAddress_eq]
  refine ⟨channel_lt _ _, bitWord_lt _, bitWord_lt _, rfl, bankWord_lt _ _ _ _, sm8975Row_lt v,
    columnWord_lt _ _ _ _ _ _, ?_⟩
  rw [BitVec.lt_def]
  have hle : (v &&& 0x1F).toNat ≤ 31 := by
    rw [BitVec.toNat_and]
    exact Nat.and_le_right
  simp only [BitVec.toNat_setWidth]
  change _ % 2 ^ 32 < 32
  omega

/-- Ranges that follow one another from `a` up to `b`. -/
def Consecutive : Nat → List (Word32 × Word32) → Nat → Prop
  | a, [], b => a = b
  | a, (lo, hi) :: rs, b => lo.toNat = a ∧ Consecutive (hi.toNat + 1) rs b

theorem Consecutive.exists_mem {a b : Nat} {rs : List (Word32 × Word32)} (h : Consecutive a rs b)
    {row : Word32} (ha : a ≤ row.toNat) (hb : row.toNat < b) :
    ∃ r ∈ rs, r.1.toNat ≤ row.toNat ∧ row.toNat ≤ r.2.toNat := by
  induction rs generalizing a with
  | nil =>
      obtain rfl : a = b := h
      omega
  | cons r rs ih =>
      obtain ⟨lo, hi⟩ := r
      obtain ⟨rfl, hrest⟩ := h
      rcases Nat.lt_or_ge hi.toNat row.toNat with hlt | hge
      · obtain ⟨r, hr, hin⟩ := ih hrest hlt
        exact ⟨r, List.mem_cons_of_mem _ hr, hin⟩
      · exact ⟨(lo, hi), List.mem_cons_self, ha, hge⟩

/-- Every row is in one of the mats 0 to 23. -/
theorem sm8975MatForRow_mem {row : Word32} (h : row < 0x8000) :
    0 ≤ sm8975MatForRow row ∧ sm8975MatForRow row ≤ 23 := by
  have hranges : Consecutive 0 matRanges 0x8000 := by simp [Consecutive, matRanges]
  obtain ⟨r, hr, hlo, hhi⟩ := hranges.exists_mem (Nat.zero_le _) (BitVec.lt_def.mp h)
  unfold sm8975MatForRow
  split
  · next i hi =>
    obtain ⟨hlt, -⟩ := List.findIdx?_eq_some_iff_getElem.mp hi
    have h24 : i < 24 := hlt
    omega
  · next hnone =>
    rw [List.findIdx?_eq_none_iff] at hnone
    have hno := hnone r hr
    simp [BitVec.le_def, hlo, hhi] at hno

/-! ## The bijection -/

/-- The numbers of coordinates in range. -/
abbrev DramAddress.Cell := Fin 4 × Fin 2 × Fin 2 × Fin 16 × Fin (2 ^ 15) × Fin (2 ^ 6) × Fin 32

def DramAddress.InRange.cell {d : DramAddress} (h : d.InRange) : DramAddress.Cell :=
  (⟨d.channel.toNat, BitVec.lt_def.mp h.channel⟩, ⟨d.rank.toNat, BitVec.lt_def.mp h.rank⟩,
    ⟨d.subchannel.toNat, BitVec.lt_def.mp h.subchannel⟩, ⟨d.bank.toNat, BitVec.lt_def.mp h.bank⟩,
    ⟨d.row.toNat, BitVec.lt_def.mp h.row⟩, ⟨d.column.toNat, BitVec.lt_def.mp h.column⟩,
    ⟨d.byteOffset.toNat, BitVec.lt_def.mp h.byteOffset⟩)

theorem DramAddress.InRange.cell_inj {d e : DramAddress} (hd : d.InRange) (he : e.InRange)
    (h : hd.cell = he.cell) : d = e := by
  simp only [cell, Prod.mk.injEq, Fin.mk.injEq] at h
  obtain ⟨h1, h2, h3, h4, h5, h6, h7⟩ := h
  obtain ⟨c, r, s, g, b, w, o, y⟩ := d
  obtain ⟨c', r', s', g', b', w', o', y'⟩ := e
  obtain rfl : g = 0 := hd.bankGroup
  obtain rfl : g' = 0 := he.bankGroup
  obtain rfl := BitVec.eq_of_toNat_eq h1
  obtain rfl := BitVec.eq_of_toNat_eq h2
  obtain rfl := BitVec.eq_of_toNat_eq h3
  obtain rfl := BitVec.eq_of_toNat_eq h4
  obtain rfl := BitVec.eq_of_toNat_eq h5
  obtain rfl := BitVec.eq_of_toNat_eq h6
  obtain rfl := BitVec.eq_of_toNat_eq h7
  rfl

/-- Every cell has an address: there are as many addresses as cells, and no two of them share
one. -/
theorem exists_dramAddress_eq {d : DramAddress} (hd : d.InRange) :
    ∃ v : Word64, v.toNat < 2 ^ 34 ∧ dramAddress v = d := by
  let f (i : Fin (2 ^ 34)) : DramAddress.Cell := (dramAddress_inRange (BitVec.ofNat 64 i)).cell
  have hmod : ∀ i : Fin (2 ^ 34), (BitVec.ofNat 64 i).toNat = i := by
    intro i
    have hi := i.isLt
    rw [BitVec.toNat_ofNat]
    exact Nat.mod_eq_of_lt (by omega)
  have hinj : Function.Injective f := by
    intro i j hij
    have heq := dramAddress_eq_iff.mp (DramAddress.InRange.cell_inj _ _ hij)
    rw [hmod, hmod, Nat.mod_eq_of_lt i.isLt, Nat.mod_eq_of_lt j.isLt] at heq
    exact Fin.ext heq
  have hsurj : Function.Surjective f := by
    apply ((Fintype.bijective_iff_injective_and_card f).mpr ⟨hinj, ?_⟩).2
    simp only [Fintype.card_prod, Fintype.card_fin]
    norm_num
  obtain ⟨i, hi⟩ := hsurj hd.cell
  exact ⟨BitVec.ofNat 64 i, by rw [hmod]; exact i.isLt, DramAddress.InRange.cell_inj _ _ hi⟩

/-- Adding the base of the upper window gives a raw address back. -/
theorem normalize_add {d : Word64} (hd : d.toNat < 2 ^ 34) :
    normalizeSm8975Address (d + 0x800000000#64) = d := by
  have hsum : (d + 0x800000000#64).toNat = d.toNat + 0x800000000 := by
    rw [BitVec.toNat_add]
    simp only [BitVec.toNat_ofNat]
    omega
  have hge : ¬ d + 0x800000000#64 < 0x100000000#64 := by
    rw [BitVec.lt_def, hsum]
    simp only [BitVec.toNat_ofNat]
    omega
  simp only [normalizeSm8975Address, if_neg hge, BitVec.add_sub_cancel]
  apply BitVec.eq_of_toNat_eq
  rw [BitVec.toNat_and]
  change d.toNat &&& (2 ^ 36 - 1) = d.toNat
  rw [Nat.and_two_pow_sub_one_eq_mod]
  exact Nat.mod_eq_of_lt (by omega)

/-- **The address decode is a bijection.** On the normalised addresses below `2 ^ 34` the
coordinates are in range, every cell in range has exactly one address, and the mat exists; so two
physical addresses have equal coordinates if and only if their normalised addresses agree in the
low 34 bits. -/
theorem sm8975_decode_bijective :
    (∀ d : Word64, d.toNat < 2 ^ 34 →
      decodeDramAddress .sm8975Lp6 (d + 0x800000000#64) = some (dramAddress d) ∧
      (dramAddress d).InRange) ∧
    (∀ c : DramAddress, c.InRange → ∃! d : Word64, d.toNat < 2 ^ 34 ∧ dramAddress d = c) ∧
    (∀ x : Word64, 0 ≤ (decodeSm8975Address x).mat ∧ (decodeSm8975Address x).mat ≤ 23) ∧
    ∀ x y : Word64, decodeDramAddress .sm8975Lp6 x = decodeDramAddress .sm8975Lp6 y ↔
      (normalizeSm8975Address x).toNat % 2 ^ 34 = (normalizeSm8975Address y).toNat % 2 ^ 34 := by
  refine ⟨fun d hd => ⟨?_, dramAddress_inRange d⟩, fun c hc => ?_, fun x => ?_, fun x y => ?_⟩
  · change some (sm8975Topology (normalizeSm8975Address (d + 0x800000000#64))).dramAddress = _
    rw [normalize_add hd]
    rfl
  · obtain ⟨d, hd, rfl⟩ := exists_dramAddress_eq hc
    refine ⟨d, ⟨hd, rfl⟩, ?_⟩
    rintro e ⟨he, heq⟩
    have hmod := dramAddress_eq_iff.mp heq
    rw [Nat.mod_eq_of_lt he, Nat.mod_eq_of_lt hd] at hmod
    exact BitVec.eq_of_toNat_eq hmod
  · exact sm8975MatForRow_mem (sm8975Row_lt _)
  · rw [← dramAddress_eq_iff]
    exact ⟨fun h => Option.some.inj h, fun h => congrArg some h⟩

/-- The representative address of the tests. -/
example : (decodeSm8975Address 0x90A5EDC3C).column = 0x3D ∧
    (decodeSm8975Address 0x90A5EDC3C).bank = 15 ∧ (decodeSm8975Address 0x90A5EDC3C).row = 0x4297 ∧
    (decodeSm8975Address 0x90A5EDC3C).mat = 12 := by decide

end StressAppTest
