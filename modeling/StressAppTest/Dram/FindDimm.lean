import Mathlib.Data.Nat.Bitwise
import Mathlib.Order.Interval.Finset.Nat
import StressAppTest.Control.Options

/-!
# The module behind an address (`OsLayer::FindDimm`)

The channel is the parity of the address bits under the hash, the module the place of the address in
a window of `channel_width / 8` bytes. Nothing is checked here: both divisors and both indices rest
on what `ParseArgs` has accepted (`find_dimm_even`). In the model a division by zero and an index
outside of a vector give `none`.
-/

namespace StressAppTest.Dram

open Control

/-- What `SetDramMappingParams` stores. The pointer to the channels is null before. -/
structure DramMapping where
  channels : Option (List (List (List Char)))
  channelHash : Word64
  channelWidth : Int

/-- The call of `SetDramMappingParams` in `Sat::Initialize`, where the hash is an `uintptr_t`. -/
def setDramMappingParams (pointerBits : Nat) (o : Options) : DramMapping where
  channels := if o.channels = [] then none else some o.channels
  channelHash := BitVec.ofNat 64 ((o.value .channelHash).toNat % 2 ^ pointerBits)
  channelWidth := o.value .channelWidth

/-- `__builtin_parity` -/
def builtinParity {w : Nat} (x : BitVec w) : Nat := (List.range w).countP x.getLsbD % 2

/-- The index of the channel. -/
def channelIndex (channelHash addr : Word64) : Nat :=
  let low := (addr &&& channelHash).setWidth 32
  let high := ((addr &&& channelHash) >>> 32).setWidth 32
  builtinParity high ^^^ builtinParity low

/-- `chip`, an `int`; the operands of its divisions are `uint64` and `size_t`. -/
def chipIndex (channelWidth : Int) (modules : Nat) (addr : Word64) : Option Int :=
  let bytes := (BitVec.ofInt 64 (channelWidth.tdiv 8)).toNat
  if bytes = 0 ∨ modules = 0 ∨ bytes / modules = 0 then none
  else some (Int.bmod (addr.toNat % bytes / (bytes / modules) : Nat) (2 ^ 32))

/-- `OsLayer::FindDimm`: what it returns, and the text in a buffer of `len` bytes. -/
def findDimm (m : DramMapping) (addr : Word64) (len : Nat) : Option (Int × List Char) :=
  match m.channels with
  | none => some (-1, "DIMM Unknown".toList.take (len - 1))
  | some channels => do
      let channel ← channels[channelIndex m.channelHash addr]?
      let chip ← chipIndex m.channelWidth channel.length addr
      let name ← if 0 ≤ chip then channel[chip.toNat]? else none
      return (1, name.take (len - 1))

/-! ## The indices -/

theorem builtinParity_lt {w : Nat} (x : BitVec w) : builtinParity x < 2 := Nat.mod_lt _ (by decide)

theorem builtinParity_zero (w : Nat) : builtinParity (0 : BitVec w) = 0 := by
  have hnone : (List.range w).countP (0 : BitVec w).getLsbD = 0 := by
    rw [List.countP_eq_zero]
    intro i _
    simp
  rw [builtinParity, hnone]

theorem channelIndex_lt (channelHash addr : Word64) : channelIndex channelHash addr < 2 := by
  unfold channelIndex
  exact Nat.xor_lt_two_pow (n := 1) (builtinParity_lt _) (builtinParity_lt _)

/-- Without a hash every address is in the first channel. -/
theorem channelIndex_zero (addr : Word64) : channelIndex 0 addr = 0 := by
  have hzero : addr &&& 0 = (0 : Word64) := BitVec.and_zero
  unfold channelIndex
  dsimp only
  rw [hzero]
  exact (congrArg₂ (· ^^^ ·) (builtinParity_zero 32) (builtinParity_zero 32)).trans rfl

section Chip

variable {width : Int} {a b : Nat}

/-- Where the width is `2 ^ a` chips of `2 ^ b` bytes, the chip is that of the byte. -/
theorem chipIndex_eq (hwidth : width = 8 * 2 ^ (a + b)) (hint : IsInt width) (addr : Word64) :
    chipIndex width (2 ^ a) addr = some ((addr.toNat % 2 ^ (a + b) / 2 ^ b : Nat) : Int) := by
  have hbytes : width.tdiv 8 = ((2 ^ (a + b) : Nat) : Int) := by
    rw [hwidth, Int.mul_tdiv_cancel_left _ (by decide)]
    push_cast
    rfl
  have hlt : 2 ^ (a + b) < 2 ^ 31 := by
    have := hint.2
    rw [hwidth] at this
    have : ((2 ^ (a + b) : Nat) : Int) < 2 ^ 31 := by
      push_cast
      omega
    exact_mod_cast this
  have hchip : 2 ^ (a + b) / 2 ^ a = 2 ^ b := by
    rw [Nat.pow_add, Nat.mul_div_cancel_left _ (Nat.two_pow_pos a)]
  have hpos := Nat.two_pow_pos (a + b)
  have hposa := Nat.two_pow_pos a
  have hposb := Nat.two_pow_pos b
  have hsmall : addr.toNat % 2 ^ (a + b) / 2 ^ b < 2 ^ 31 :=
    (Nat.div_le_self _ _).trans_lt ((Nat.mod_lt _ hpos).trans hlt)
  have hconvert {q : Nat} (hq : q < 2 ^ 31) : Int.bmod q (2 ^ 32) = q := by
    apply Int.bmod_eq_of_le_mul_two
    · omega
    · omega
  unfold chipIndex
  dsimp only
  rw [hbytes, BitVec.ofInt_natCast, BitVec.toNat_ofNat, Nat.mod_eq_of_lt (by omega), hchip,
    if_neg (by omega), hconvert hsmall]

/-- The chip is below the number of chips. -/
theorem chip_lt (n : Nat) : n % 2 ^ (a + b) / 2 ^ b < 2 ^ a := by
  rw [Nat.div_lt_iff_lt_mul (Nat.two_pow_pos b), ← Nat.pow_add]
  exact Nat.mod_lt _ (Nat.two_pow_pos _)

end Chip

/-- The bytes of a window. -/
def DramMapping.windowBytes (m : DramMapping) : Nat := (m.channelWidth / 8).toNat

/-- The places in window `n` that belong to a chip of a channel. -/
def DramMapping.owned (m : DramMapping) (modules n chip : Nat) : Finset Nat :=
  (Finset.range m.windowBytes).filter fun k =>
    chipIndex m.channelWidth modules (BitVec.ofNat 64 (n * m.windowBytes + k)) = some (chip : Int)

section Window

variable {m : DramMapping} {a b : Nat}

theorem windowBytes_eq (hwidth : m.channelWidth = 8 * 2 ^ (a + b)) : m.windowBytes = 2 ^ (a + b) := by
  rw [DramMapping.windowBytes, hwidth, Int.mul_ediv_cancel_left _ (by decide)]
  exact_mod_cast rfl

/-- **The places of a chip** are its share of the window. -/
theorem owned_eq (hwidth : m.channelWidth = 8 * 2 ^ (a + b)) (hint : IsInt m.channelWidth)
    (n : Nat) {chip : Nat} (hchip : chip < 2 ^ a) :
    m.owned (2 ^ a) n chip = Finset.Ico (chip * 2 ^ b) (chip * 2 ^ b + 2 ^ b) := by
  have hbytes := windowBytes_eq hwidth
  have hdvd : 2 ^ (a + b) ∣ 2 ^ 64 := by
    apply Nat.pow_dvd_pow
    apply (Nat.pow_le_pow_iff_right (a := 2) (by decide)).mp
    have := hint.2
    rw [hwidth] at this
    have : ((2 ^ (a + b) : Nat) : Int) ≤ (2 ^ 64 : Nat) := by
      push_cast
      omega
    exact_mod_cast this
  have hend : chip * 2 ^ b + 2 ^ b ≤ 2 ^ (a + b) := by
    rw [← Nat.succ_mul, Nat.pow_add]
    exact Nat.mul_le_mul_right _ hchip
  have hplace {k : Nat} (hk : k < 2 ^ (a + b)) :
      (BitVec.ofNat 64 (n * 2 ^ (a + b) + k)).toNat % 2 ^ (a + b) = k := by
    rw [BitVec.toNat_ofNat, Nat.mod_mod_of_dvd _ hdvd, Nat.mul_add_mod_of_lt hk]
  have hpos := Nat.two_pow_pos b
  ext k
  rw [DramMapping.owned, Finset.mem_filter, Finset.mem_range, Finset.mem_Ico, hbytes,
    chipIndex_eq hwidth hint, Option.some.injEq, Int.natCast_inj]
  constructor
  · intro ⟨hk, hown⟩
    rw [hplace hk, Nat.div_eq_iff hpos] at hown
    omega
  · intro hown
    have hk : k < 2 ^ (a + b) := by omega
    rw [hplace hk, Nat.div_eq_iff hpos]
    omega

end Window

/-- The hash of a single channel has been switched off. -/
theorem channelIndex_lt_length {o : Options} (h : o.ChannelsOk) (hsome : o.channels ≠ [])
    (pointerBits : Nat) (addr : Word64) :
    channelIndex (setDramMappingParams pointerBits o).channelHash addr < o.channels.length := by
  have hpos := List.length_pos_of_ne_nil hsome
  by_cases hone : o.channels.length = 1
  · have hhash : (setDramMappingParams pointerBits o).channelHash = 0 := by
      unfold setDramMappingParams
      dsimp only
      rw [h.single hone]
      simp
    rw [hhash, channelIndex_zero]
    exact hpos
  · have := channelIndex_lt (setDramMappingParams pointerBits o).channelHash addr
    omega

/-- **The module lookup** of accepted options has no division by zero and no index outside of a
vector, and each module of a channel has its share of each window, in one piece. -/
theorem find_dimm_even (pointerBits : Nat) {args : List String} {o : Options}
    (h : parseArgs args = .ok o) :
    let m := setDramMappingParams pointerBits o
    (∀ addr len, ∃ r, findDimm m addr len = some r) ∧
      (o.channels ≠ [] → ∀ addr, channelIndex m.channelHash addr < o.channels.length) ∧
      ∀ channel ∈ o.channels,
        (∀ addr, ∃ chip : Nat, chipIndex m.channelWidth channel.length addr = some (chip : Int) ∧
          chip < channel.length) ∧
        ∀ n chip, chip < channel.length → m.owned channel.length n chip =
          Finset.Ico (chip * (m.windowBytes / channel.length))
            (chip * (m.windowBytes / channel.length) + m.windowBytes / channel.length) := by
  intro m
  have haccepted := parseArgs_accepted h
  have hchip : ∀ channel ∈ o.channels, ∀ addr, ∃ chip : Nat,
      chipIndex m.channelWidth channel.length addr = some (chip : Int) ∧ chip < channel.length := by
    intro channel hchannel addr
    obtain ⟨a, b, hwidth, hlength⟩ := haccepted.channels.widths (List.ne_nil_of_mem hchannel)
    rw [hlength channel hchannel]
    exact ⟨_, chipIndex_eq hwidth haccepted.channelWidth addr, chip_lt _⟩
  refine ⟨?_, fun hsome addr => channelIndex_lt_length haccepted.channels hsome pointerBits addr, ?_⟩
  · intro addr len
    by_cases hnone : o.channels = []
    · exact ⟨_, by rw [findDimm, show m.channels = none from if_pos hnone]⟩
    · have hindex : channelIndex m.channelHash addr < o.channels.length :=
        channelIndex_lt_length haccepted.channels hnone pointerBits addr
      obtain ⟨chip, hat, hlt⟩ := hchip _ (List.getElem_mem hindex) addr
      refine ⟨(1, (o.channels[channelIndex m.channelHash addr][chip]).take (len - 1)), ?_⟩
      rw [findDimm, show m.channels = some o.channels from if_neg hnone]
      simp [List.getElem?_eq_getElem hindex, hat, hlt]
  · intro channel hchannel
    refine ⟨hchip channel hchannel, ?_⟩
    intro n chip hlt
    obtain ⟨a, b, hwidth, hlength⟩ := haccepted.channels.widths (List.ne_nil_of_mem hchannel)
    rw [hlength channel hchannel] at hlt ⊢
    rw [owned_eq hwidth haccepted.channelWidth n hlt, windowBytes_eq hwidth, Nat.pow_add,
      Nat.mul_div_cancel_left _ (Nat.two_pow_pos a)]

/-- Two channels of eight modules. -/
theorem find_dimm_even_eightModules :
    ∃ o, parseArgs ["--memory_channel", "U1,U2,U3,U4,U5,U6,U7,U8", "--memory_channel",
        "V1,V2,V3,V4,V5,V6,V7,V8", "--channel_hash", "0x2040"] = .ok o ∧
      o.channels ≠ [] ∧ ∀ addr len, ∃ r, findDimm (setDramMappingParams 64 o) addr len = some r := by
  have hok : ∃ o, parseArgs ["--memory_channel", "U1,U2,U3,U4,U5,U6,U7,U8", "--memory_channel",
      "V1,V2,V3,V4,V5,V6,V7,V8", "--channel_hash", "0x2040"] = .ok o ∧ o.channels ≠ [] := by
    refine ⟨_, rfl, ?_⟩
    decide
  obtain ⟨o, h, hsome⟩ := hok
  exact ⟨o, h, hsome, (find_dimm_even 64 h).1⟩

end StressAppTest.Dram
