import Mathlib.Data.Nat.Bitwise
import Mathlib.Algebra.BigOperators.Group.List.Basic
import Mathlib.Tactic.IntervalCases
import Mathlib.Tactic.NormNum
import StressAppTest.Adler

/-!
# Data patterns (`pattern.cc`)

A `PatternData` is a table of 32-bit words whose length is a power of two; a `Pattern` reads
it at a bus width (each table word repeated `2 ^ busshift` times), from a word offset, and
possibly inverted. The checksum of a pattern covers its first 4096 bytes only. It stands for
every 4096-byte block of a page because the whole word sequence repeats after 1024 units
(`Pattern.pattern_add`).

* `Pattern.crc_eq` is carried by the structure: a pattern without its checksum cannot be built.
* `PatternList.getRandomPattern_isSome`: the weighted draw and the `-P` list never run past
  the end of the list.
-/

namespace StressAppTest

/-- `struct PatternData` -/
structure PatternData where
  name : String
  pat : List Word32
  mask : Nat
  weight : List Nat
  deriving DecidableEq, Repr

/-- A table with its mask, `sizeof data / sizeof data[0] - 1`. -/
def PatternData.ofArray (name : String) (pat : List Word32) (w32 w64 w128 w256 : Nat) :
    PatternData :=
  ⟨name, pat, pat.length - 1, [w32, w64, w128, w256]⟩

/-! ## Static data patterns -/

def walkingOnesData : List Word32 := [
  0x00000001, 0x00000002, 0x00000004, 0x00000008,
  0x00000010, 0x00000020, 0x00000040, 0x00000080,
  0x00000100, 0x00000200, 0x00000400, 0x00000800,
  0x00001000, 0x00002000, 0x00004000, 0x00008000,
  0x00010000, 0x00020000, 0x00040000, 0x00080000,
  0x00100000, 0x00200000, 0x00400000, 0x00800000,
  0x01000000, 0x02000000, 0x04000000, 0x08000000,
  0x10000000, 0x20000000, 0x40000000, 0x80000000,
  0x40000000, 0x20000000, 0x10000000, 0x08000000,
  0x04000000, 0x02000000, 0x01000000, 0x00800000,
  0x00400000, 0x00200000, 0x00100000, 0x00080000,
  0x00040000, 0x00020000, 0x00010000, 0x00008000,
  0x00004000, 0x00002000, 0x00001000, 0x00000800,
  0x00000400, 0x00000200, 0x00000100, 0x00000080,
  0x00000040, 0x00000020, 0x00000010, 0x00000008,
  0x00000004, 0x00000002, 0x00000001, 0x00000000]

def walkingOnes : PatternData := .ofArray "walkingOnes" walkingOnesData 1 1 2 1

def walkingInvOnesData : List Word32 := [
  0x00000001, 0xfffffffe, 0x00000002, 0xfffffffd,
  0x00000004, 0xfffffffb, 0x00000008, 0xfffffff7,
  0x00000010, 0xffffffef, 0x00000020, 0xffffffdf,
  0x00000040, 0xffffffbf, 0x00000080, 0xffffff7f,
  0x00000100, 0xfffffeff, 0x00000200, 0xfffffdff,
  0x00000400, 0xfffffbff, 0x00000800, 0xfffff7ff,
  0x00001000, 0xffffefff, 0x00002000, 0xffffdfff,
  0x00004000, 0xffffbfff, 0x00008000, 0xffff7fff,
  0x00010000, 0xfffeffff, 0x00020000, 0xfffdffff,
  0x00040000, 0xfffbffff, 0x00080000, 0xfff7ffff,
  0x00100000, 0xffefffff, 0x00200000, 0xffdfffff,
  0x00400000, 0xffbfffff, 0x00800000, 0xff7fffff,
  0x01000000, 0xfeffffff, 0x02000000, 0xfdffffff,
  0x04000000, 0xfbffffff, 0x08000000, 0xf7ffffff,
  0x10000000, 0xefffffff, 0x20000000, 0xdfffffff,
  0x40000000, 0xbfffffff, 0x80000000, 0x7fffffff,
  0x40000000, 0xbfffffff, 0x20000000, 0xdfffffff,
  0x10000000, 0xefffffff, 0x08000000, 0xf7ffffff,
  0x04000000, 0xfbffffff, 0x02000000, 0xfdffffff,
  0x01000000, 0xfeffffff, 0x00800000, 0xff7fffff,
  0x00400000, 0xffbfffff, 0x00200000, 0xffdfffff,
  0x00100000, 0xffefffff, 0x00080000, 0xfff7ffff,
  0x00040000, 0xfffbffff, 0x00020000, 0xfffdffff,
  0x00010000, 0xfffeffff, 0x00008000, 0xffff7fff,
  0x00004000, 0xffffbfff, 0x00002000, 0xffffdfff,
  0x00001000, 0xffffefff, 0x00000800, 0xfffff7ff,
  0x00000400, 0xfffffbff, 0x00000200, 0xfffffdff,
  0x00000100, 0xfffffeff, 0x00000080, 0xffffff7f,
  0x00000040, 0xffffffbf, 0x00000020, 0xffffffdf,
  0x00000010, 0xffffffef, 0x00000008, 0xfffffff7,
  0x00000004, 0xfffffffb, 0x00000002, 0xfffffffd,
  0x00000001, 0xfffffffe, 0x00000000, 0xffffffff]

def walkingInvOnes : PatternData := .ofArray "walkingInvOnes" walkingInvOnesData 2 2 5 5

def walkingZerosData : List Word32 := [
  0xfffffffe, 0xfffffffd, 0xfffffffb, 0xfffffff7,
  0xffffffef, 0xffffffdf, 0xffffffbf, 0xffffff7f,
  0xfffffeff, 0xfffffdff, 0xfffffbff, 0xfffff7ff,
  0xffffefff, 0xffffdfff, 0xffffbfff, 0xffff7fff,
  0xfffeffff, 0xfffdffff, 0xfffbffff, 0xfff7ffff,
  0xffefffff, 0xffdfffff, 0xffbfffff, 0xff7fffff,
  0xfeffffff, 0xfdffffff, 0xfbffffff, 0xf7ffffff,
  0xefffffff, 0xdfffffff, 0xbfffffff, 0x7fffffff,
  0xbfffffff, 0xdfffffff, 0xefffffff, 0xf7ffffff,
  0xfbffffff, 0xfdffffff, 0xfeffffff, 0xff7fffff,
  0xffbfffff, 0xffdfffff, 0xffefffff, 0xfff7ffff,
  0xfffbffff, 0xfffdffff, 0xfffeffff, 0xffff7fff,
  0xffffbfff, 0xffffdfff, 0xffffefff, 0xfffff7ff,
  0xfffffbff, 0xfffffdff, 0xfffffeff, 0xffffff7f,
  0xffffffbf, 0xffffffdf, 0xffffffef, 0xfffffff7,
  0xfffffffb, 0xfffffffd, 0xfffffffe, 0xffffffff]

def walkingZeros : PatternData := .ofArray "walkingZeros" walkingZerosData 1 1 2 1

def oneZeroData : List Word32 := [0x00000000, 0xffffffff]

def oneZero : PatternData := .ofArray "OneZero" oneZeroData 5 5 15 5

def justZeroData : List Word32 := [0x00000000, 0x00000000]

def justZero : PatternData := .ofArray "JustZero" justZeroData 2 0 0 0

def justOneData : List Word32 := [0xffffffff, 0xffffffff]

def justOne : PatternData := .ofArray "JustOne" justOneData 2 0 0 0

def justFiveData : List Word32 := [0x55555555, 0x55555555]

def justFive : PatternData := .ofArray "JustFive" justFiveData 2 0 0 0

def justAData : List Word32 := [0xaaaaaaaa, 0xaaaaaaaa]

def justA : PatternData := .ofArray "JustA" justAData 2 0 0 0

def fiveAData : List Word32 := [0x55555555, 0xaaaaaaaa]

def fiveA : PatternData := .ofArray "FiveA" fiveAData 1 1 1 1

def fiveA8Data : List Word32 := [
  0x5aa5a55a, 0xa55a5aa5, 0xa55a5aa5, 0x5aa5a55a]

def fiveA8 : PatternData := .ofArray "FiveA8" fiveA8Data 1 1 1 1

def long8b10bData : List Word32 := [0x16161616, 0x16161616]

def long8b10b : PatternData := .ofArray "Long8b10b" long8b10bData 2 0 0 0

def short8b10bData : List Word32 := [0xb5b5b5b5, 0xb5b5b5b5]

def short8b10b : PatternData := .ofArray "Short8b10b" short8b10bData 2 0 0 0

def checker8b10bData : List Word32 := [0xb5b5b5b5, 0x4a4a4a4a]

def checker8b10b : PatternData := .ofArray "Checker8b10b" checker8b10bData 1 0 0 1

def five7Data : List Word32 := [0x55555557, 0x55575555]

def five7 : PatternData := .ofArray "Five7" five7Data 0 2 0 0

def zero2fdData : List Word32 := [0x00020002, 0xfffdfffd]

def zero2fd : PatternData := .ofArray "Zero2fd" zero2fdData 0 2 0 0

/-- `pattern_array` -/
def patternArray : List PatternData :=
  [walkingOnes, walkingInvOnes, walkingZeros, oneZero, justZero, justOne, justFive, justA,
    fiveA, fiveA8, long8b10b, short8b10b, checker8b10b, five7, zero2fd]

/-- Every table fills its mask, and its length divides the longest one. -/
theorem patternArray_mask : ∀ d ∈ patternArray,
    d.pat.length = d.mask + 1 ∧ ∃ k ≤ 7, d.mask + 1 = 2 ^ k := by
  decide +kernel

/-! ## `class Pattern` -/

/-- The 32-bit word at word number `offset`: `pattern_->pat[((offset + word_offset_) >>
busshift_) & mask]`, inverted on demand. With `word_offset_ == 0` the source skips the
addition (`pattern_unshifted`). -/
def patternWord (data : PatternData) (busshift : Nat) (wordOffset : Nat) (inverse : Bool)
    (offset : Nat) : Word32 :=
  let word := data.pat.getD ((((offset + wordOffset) % 2 ^ 32) >>> busshift) &&& data.mask) 0
  if inverse then ~~~word else word

/-- `class Pattern`, together with what `Initialize` establishes. -/
structure Pattern where
  data : PatternData
  busshift : Nat
  wordOffset : Nat
  inverse : Bool
  weight : Nat
  name : String
  crc : AdlerChecksum
  data_mem : data ∈ patternArray
  busshift_le : busshift ≤ 3
  crc_eq : crc = AdlerChecksum.sum (patternWord data busshift wordOffset inverse) 256

namespace Pattern

/-- `Pattern::pattern` -/
def pattern (p : Pattern) (offset : Nat) : Word32 :=
  patternWord p.data p.busshift p.wordOffset p.inverse offset

/-- The bus shift and name suffix of a bus width; a width `Initialize` does not know keeps
the shift 2 and is reported. -/
def busOf (buswidth : Nat) : Option (Nat × String) :=
  match buswidth with
  | 32 => some (0, "32")
  | 64 => some (1, "64")
  | 128 => some (2, "128")
  | 256 => some (3, "256")
  | _ => none

theorem busOf_le (buswidth : Nat) : ((busOf buswidth).getD (2, "Broken")).1 ≤ 3 := by
  unfold busOf
  split <;> decide

/-- `Pattern::Initialize`: the pattern with its checksum, and the returned status. -/
def initializePattern (patternInit : PatternData) (hmem : patternInit ∈ patternArray) (buswidth : Nat)
    (invert : Bool) (weight byteOffset : Nat) : Pattern × Bool :=
  let bus := (busOf buswidth).getD (2, "Broken")
  let wordOffset := byteOffset / 4
  (⟨patternInit, bus.1, wordOffset, invert, weight,
    patternInit.name ++ (if invert then "~" else "") ++ bus.2,
    AdlerChecksum.sum (patternWord patternInit bus.1 wordOffset invert) 256,
    hmem, busOf_le buswidth, rfl⟩, (busOf buswidth).isSome)

/-- The word sequence repeats after `8 * 128` units, whatever the table and the bus width. -/
theorem pattern_add (p : Pattern) (offset : Nat) : p.pattern (offset + 1024) = p.pattern offset := by
  obtain ⟨-, k, hk, hmask⟩ := patternArray_mask p.data p.data_mem
  have hshift := p.busshift_le
  unfold pattern patternWord
  have hidx : (((offset + 1024 + p.wordOffset) % 2 ^ 32) >>> p.busshift) &&& p.data.mask =
      (((offset + p.wordOffset) % 2 ^ 32) >>> p.busshift) &&& p.data.mask := by
    have hm : p.data.mask = 2 ^ k - 1 := by omega
    rw [hm, Nat.and_two_pow_sub_one_eq_mod, Nat.and_two_pow_sub_one_eq_mod,
      Nat.shiftRight_eq_div_pow, Nat.shiftRight_eq_div_pow]
    -- both sides are the same residue modulo `2 ^ (busshift + k)`, a divisor of 1024
    rw [← Nat.mod_mul_right_div_self, ← Nat.mod_mul_right_div_self, ← pow_add]
    have hdvd : 2 ^ (p.busshift + k) ∣ 1024 := by
      have h10 : 2 ^ (p.busshift + k) ∣ 2 ^ 10 := pow_dvd_pow 2 (by omega)
      simpa using h10
    have hdvd' : 2 ^ (p.busshift + k) ∣ 2 ^ 32 := pow_dvd_pow 2 (by omega)
    rw [Nat.mod_mod_of_dvd _ hdvd', Nat.mod_mod_of_dvd _ hdvd']
    obtain ⟨d, hd⟩ := hdvd
    rw [show offset + 1024 + p.wordOffset = offset + p.wordOffset + 1024 by omega, hd,
      Nat.add_mul_mod_self_left]
  simp only [hidx]

theorem pattern_add_mul (p : Pattern) (offset k : Nat) :
    p.pattern (offset + 1024 * k) = p.pattern offset := by
  induction k with
  | zero => rfl
  | succ k ih => rw [Nat.mul_succ, ← Nat.add_assoc, pattern_add, ih]

theorem crc_eq_sum (p : Pattern) : p.crc = AdlerChecksum.sum p.pattern 256 := p.crc_eq

/-- A pattern of ones. -/
def ones : Pattern := (initializePattern justOne (by decide) 32 false 0 0).1

theorem ones_pattern (i : Nat) : ones.pattern i = BitVec.allOnes 32 := by
  have hmask : justOne.mask = 2 ^ 1 - 1 := rfl
  change (justOneData.getD ((((i + 0) % 2 ^ 32) >>> 0) &&& justOne.mask) 0) = _
  rw [hmask, Nat.and_two_pow_sub_one_eq_mod]
  have h2 : (((i + 0) % 2 ^ 32) >>> 0) % 2 ^ 1 < 2 := Nat.mod_lt _ (by norm_num)
  interval_cases h : (((i + 0) % 2 ^ 32) >>> 0) % 2 ^ 1 <;> rfl

end Pattern

/-! ## `class PatternList` -/

/-- The eight versions of a table, in the order `PatternList::Initialize` stores them. -/
def patternVersions (byteOffset : Nat) (d : PatternData) (hd : d ∈ patternArray) : List Pattern :=
  [false, true].flatMap fun invert =>
    [32, 64, 128, 256].zipWith
      (fun width weight => (Pattern.initializePattern d hd width invert weight byteOffset).1)
      d.weight

/-- `class PatternList` after `Initialize`. `selectedPatternIds` is the `-P` list, whose
entries `SetPatternSequence` has checked against the size. -/
structure PatternList where
  patterns : List Pattern
  selectedPatternIds : List Nat
  ids_lt : ∀ i ∈ selectedPatternIds, i < patterns.length
  weight_pos : 0 < (patterns.map Pattern.weight).sum

namespace PatternList

/-- The patterns stored by `PatternList::Initialize`. -/
def initPatterns (byteOffset : Nat) : List Pattern :=
  patternArray.attach.flatMap fun d => patternVersions byteOffset d.1 d.2

/-- The weights of the stored patterns do not depend on the offset. -/
theorem weights_initPatterns (byteOffset : Nat) :
    (initPatterns byteOffset).map Pattern.weight =
      patternArray.flatMap fun d => [false, true].flatMap fun _ =>
        [32, 64, 128, 256].zipWith (fun _ w => w) d.weight := by
  rw [initPatterns, List.map_flatMap]
  have h : ∀ d ∈ patternArray.attach,
      (patternVersions byteOffset d.1 d.2).map Pattern.weight =
        [false, true].flatMap fun _ => [32, 64, 128, 256].zipWith (fun _ w => w) d.1.weight := by
    intro d _
    simp only [patternVersions, List.map_flatMap, List.map_zipWith]
    rfl
  rw [List.flatMap_congr h, List.flatMap_subtype (g := fun d => [false, true].flatMap fun _ =>
    [32, 64, 128, 256].zipWith (fun _ w => w) d.weight) (fun _ _ => rfl)]
  simp

/-- `PatternList::Initialize`, before a sequence is set. -/
def initializeList (byteOffset : Nat) : PatternList where
  patterns := initPatterns byteOffset
  selectedPatternIds := []
  ids_lt := by simp
  weight_pos := by
    rw [weights_initPatterns]
    decide +kernel

/-- `PatternList::GetPattern` -/
def getPattern (l : PatternList) (i : Nat) : Option Pattern := l.patterns[i]?

/-- The do-while loop of `GetRandomPattern`: weights are taken off `target` until it is used
up. -/
def pickWeighted (target : Int) : List Pattern → Option Pattern
  | [] => none
  | p :: ps => if target - p.weight ≤ 0 then some p else pickWeighted (target - p.weight) ps

/-- `PatternList::GetRandomPattern`, with the fetched cursor and the value of `random()`. -/
def getRandomPattern (l : PatternList) (cursor random : Nat) : Option Pattern :=
  match l.selectedPatternIds with
  | [] => pickWeighted ((random % (l.patterns.map Pattern.weight).sum : Nat) + 1) l.patterns
  | id :: ids => l.patterns[(id :: ids).getD (cursor % (id :: ids).length) 0]?

theorem pickWeighted_isSome {target : Int} {ps : List Pattern}
    (h : target ≤ ((ps.map Pattern.weight).sum : Nat)) (hpos : 0 < target) :
    (pickWeighted target ps).isSome := by
  induction ps generalizing target with
  | nil =>
      simp at h
      omega
  | cons p ps ih =>
      simp only [List.map_cons, List.sum_cons, Nat.cast_add] at h
      unfold pickWeighted
      split
      · rfl
      · exact ih (by omega) (by omega)

/-- A draw never returns the null pattern. -/
theorem getRandomPattern_isSome (l : PatternList) (cursor random : Nat) :
    (l.getRandomPattern cursor random).isSome := by
  unfold getRandomPattern
  have hids := l.ids_lt
  split
  · have hlt := Nat.mod_lt random l.weight_pos
    exact pickWeighted_isSome (by omega) (by omega)
  · next id ids heq =>
    rw [heq] at hids
    have hlt : cursor % (id :: ids).length < (id :: ids).length := Nat.mod_lt _ (by simp)
    have := hids _ (List.getElem_mem hlt)
    rw [List.getD_eq_getElem _ _ hlt]
    simpa using this

end PatternList

end StressAppTest
