import StressAppTest.Dram.FailLine

/-!
# Error reports (`worker.cc`)

The four functions that print a miscompare with its DRAM coordinates. Their formats differ in the
fields before and between the values, but all pass the check of `FailShape`, with the generated
fields (the kind of error, the SAT location, the coordinates) printed in place.
-/

namespace StressAppTest

open Text Printf

/-- `struct ErrorRecord` -/
structure ErrorRecord where
  actual : Word64
  reread : Word64
  expected : Word64
  vaddr : Word64
  paddr : Word64
  tagvaddr : Word64
  tagpaddr : Word64
  lastcpu : Word32
  patternname : Option (List Char)
  workerName : List Char
  phase : List Char
  patternByteOffset : Word32
  satPageOffset : Word64
  offsetInPage : Word64
  writeDramFrequency : Int
  readDramFrequency : Int
  rereadDramFrequency : Int

/-- `BlockWriter` -/
inductive BlockWriter where
  | unknown | preset | initialFill | copy | invert | repair | file | network

def BlockWriter.name : BlockWriter → String
  | .unknown => "unknown"
  | .preset => "preset"
  | .initialFill => "initial_fill"
  | .copy => "copy"
  | .invert => "invert"
  | .repair => "repair"
  | .file => "file"
  | .network => "network"

/-- `struct BlockHistory`, with the age of the write at the time of the report. -/
structure BlockHistory where
  writer : BlockWriter
  generation : Word64
  writerThread : Int
  writerCpu : Int
  writeAgeUs : Int
  frequencyEpochBegin : Word64
  frequencyEpochEnd : Word64

/-- `Sat::FormatBlockHistory`, once it has found the block. -/
def BlockHistory.text (h : BlockHistory) : List Char :=
  render (format ("last_writer:%s,generation:%llu,writer_thread:%d,writer_cpu:%d," ++
    "write_age_us:%lld,freq_epoch_begin:%llu,freq_epoch_end:%llu,freq_span:%s"))
    [.str h.writer.name.toList, .num h.generation.toNat, .num h.writerThread, .num h.writerCpu,
     .num h.writeAgeUs, .num h.frequencyEpochBegin.toNat, .num h.frequencyEpochEnd.toNat,
     .str (if h.frequencyEpochBegin = h.frequencyEpochEnd then "single".toList else "mixed".toList)]

/-- What the reports print besides the record. -/
structure LogContext where
  message : List Char
  coreId : Int
  /-- `FindDimm` of the two addresses. -/
  dimm : List Char
  tagDimm : List Char
  /-- `devicename_` -/
  device : List Char
  /-- `identifier_` -/
  identifier : List Char
  /-- `region_` -/
  region : Word64
  /-- `CurrentCpusFormat()` -/
  cpus : List Char
  /-- `dram_frequency_mode()` -/
  mode : List Char
  profile : DramAddressMapProfile
  pageLength : Word64
  /-- The block history of a page offset, where it is kept. -/
  history : Word64 → Option BlockHistory

/-- `FormatDramFrequencyValue` -/
def formatDramFrequencyValue (frequency : Int) : List Char :=
  if 0 ≤ frequency then render (format "%d") [.num frequency] else "unknown".toList

/-- `FormatDramFrequencies` -/
def formatDramFrequencies (r : ErrorRecord) : List Char :=
  render (format "write=%s read=%s reread=%s")
    [.str (formatDramFrequencyValue r.writeDramFrequency),
     .str (formatDramFrequencyValue r.readDramFrequency),
     .str (formatDramFrequencyValue r.rereadDramFrequency)]

/-- `FormatDramCoordinates` -/
def formatDramCoordinates (profile : DramAddressMapProfile) (physicalAddress : Word64) : List Char :=
  match if physicalAddress = 0 then none else decodeDramAddress profile physicalAddress with
  | none => render (format ("ch:unknown,rk:unknown,sc:unknown,bg:unknown,bank:unknown," ++
      "row:unknown,col:unknown")) []
  | some address => render (format "ch:%u,rk:%u,sc:%u,bg:%u,bank:%u,row:%x,col:%x")
      [.num address.channel.toNat, .num address.rank.toNat, .num address.subchannel.toNat,
       .num address.bankGroup.toNat, .num address.bank.toNat, .num address.row.toNat,
       .num address.column.toNat]

/-- The byte of a word, in memory order. -/
def byteOf (value : Word64) (offset : Nat) : BitVec 8 := (value >>> (8 * offset)).setWidth 8

/-- The first byte that differs, or the last byte of the word. -/
def mismatchOffset (r : ErrorRecord) : Nat :=
  ((List.range 7).find? fun offset => byteOf r.expected offset ≠ byteOf r.actual offset).getD 7

/-- `error_offset_in_page` -/
def errorOffsetInPage (r : ErrorRecord) : Word64 :=
  if r.offsetInPage ≠ ~~~0 then r.offsetInPage + BitVec.ofNat 64 (mismatchOffset r) else r.offsetInPage

/-- The format and the arguments of `sat_location`. -/
def satLocation (c : LogContext) (r : ErrorRecord) : List Directive × List Arg :=
  if r.satPageOffset ≠ ~~~0 ∧ errorOffsetInPage r ≠ ~~~0 then
    (format "sat_block:%llu,sat_offset:0x%llx,block_offset:0x%llx",
      [.num (r.satPageOffset / c.pageLength).toNat, .num r.satPageOffset.toNat,
       .num (errorOffsetInPage r).toNat])
  else (format "sat_block:unknown,sat_offset:unknown,block_offset:unknown", [])

/-- `block_history_suffix` -/
def blockHistorySuffix (c : LogContext) (r : ErrorRecord) : List Char :=
  if r.satPageOffset = ~~~0 then []
  else
    match c.history r.satPageOffset with
    | none => []
    | some h => render (format ", block_history(%s)") [.str h.text]

/-- The kind of error that a report names. -/
def errorKind (readError : Bool) : List Char :=
  if readError then "read error".toList else "write error".toList

/-- The functions that print a report. -/
inductive FailPrinter where
  /-- `WorkerThread::ProcessError` -/
  | worker
  /-- `FileThread::ProcessError` -/
  | file
  /-- `WorkerThread::ProcessTagError` -/
  | tag
  /-- `MemoryRegionThread::ProcessError`, in the check phase -/
  | region

def failFormat : FailPrinter → List Char
  | .worker =>
      "%s: miscompare on CPU %d(<-%d) at %p(0x%llx:%s): ".toList ++
      "read:0x%016llx, reread:0x%016llx, expected:0x%016llx. ".toList ++
      "'%s'; %s, worker:%s, phase:%s, pattern_offset:%u, ".toList ++
      "%s, %s, cur_mode:%s, cur_freq:%s, ".toList ++
      "ddr_freq(%s)%s.\n".toList
  | .file =>
      "%s: miscompare on %s at %p(0x%llx:%s): read:0x%016llx, ".toList ++
      "reread:0x%016llx, expected:0x%016llx. '%s'; %s, %s, ".toList ++
      "cur_mode:%s, cur_freq:%s, ddr_freq(%s).\n".toList
  | .tag =>
      "%s: Tag from %p(0x%llx:%s) (%s) ".toList ++
      "miscompare on CPU %d(0x%s) at %p(0x%llx:%s): ".toList ++
      "read:0x%016llx, reread:0x%016llx, expected:0x%016llx. ".toList ++
      "%s, %s, cur_mode:%s, cur_freq:%s, ddr_freq(%s).\n".toList
  | .region =>
      "%s: miscompare on %s, CRC check at %p(0x%llx), ".toList ++
      "offset %llx: read:0x%016llx, reread:0x%016llx ".toList ++
      "expected:0x%016llx. %s, %s, cur_mode:%s, cur_freq:%s, ".toList ++
      "ddr_freq(%s).\n".toList

/-- `error->vbyteaddr - region_` -/
def bufferOffset (c : LogContext) (r : ErrorRecord) : Word32 :=
  (r.vaddr + BitVec.ofNat 64 (mismatchOffset r) - c.region).setWidth 32

def failArgs (c : LogContext) (r : ErrorRecord) : FailPrinter → List Arg
  | .worker =>
      [.str c.message, .num c.coreId, .num r.lastcpu.toInt, .num r.vaddr.toNat, .num r.paddr.toNat,
       .str c.dimm, .num r.actual.toNat, .num r.reread.toNat, .num r.expected.toNat,
       .str (r.patternname.getD "None".toList), .str (errorKind (r.reread = r.expected)),
       .str r.workerName, .str r.phase, .num r.patternByteOffset.toNat,
       .str (render (satLocation c r).1 (satLocation c r).2),
       .str (formatDramCoordinates c.profile r.paddr), .str c.mode,
       .str (formatDramFrequencyValue r.rereadDramFrequency), .str (formatDramFrequencies r),
       .str (blockHistorySuffix c r)]
  | .file =>
      [.str c.message, .str c.device, .num r.vaddr.toNat, .num r.paddr.toNat, .str c.dimm,
       .num r.actual.toNat, .num r.reread.toNat, .num r.expected.toNat,
       .str (r.patternname.getD "None".toList), .str (errorKind (r.reread = r.expected)),
       .str (formatDramCoordinates c.profile r.paddr), .str c.mode,
       .str (formatDramFrequencyValue r.rereadDramFrequency), .str (formatDramFrequencies r)]
  | .tag =>
      [.str c.message, .num r.tagvaddr.toNat, .num r.tagpaddr.toNat, .str c.tagDimm,
       .str (errorKind (r.actual ≠ r.reread)), .num c.coreId, .str c.cpus, .num r.vaddr.toNat,
       .num r.paddr.toNat, .str c.dimm, .num r.actual.toNat, .num r.reread.toNat,
       .num r.expected.toNat, .str (errorKind (r.actual ≠ r.reread)),
       .str (formatDramCoordinates c.profile r.paddr), .str c.mode,
       .str (formatDramFrequencyValue r.rereadDramFrequency), .str (formatDramFrequencies r)]
  | .region =>
      [.str c.message, .str c.identifier, .num r.vaddr.toNat, .num r.paddr.toNat,
       .num (bufferOffset c r).toNat, .num r.actual.toNat, .num r.reread.toNat,
       .num r.expected.toNat, .str (errorKind (r.reread = r.expected)),
       .str (formatDramCoordinates c.profile r.paddr), .str c.mode,
       .str (formatDramFrequencyValue r.rereadDramFrequency), .str (formatDramFrequencies r)]

/-- The broken-down time that `strftime` prints. -/
structure Timestamp where
  year : Nat
  month : Nat
  day : Nat
  hour : Nat
  minute : Nat
  second : Nat
  zone : List Char

/-- `%Y/%m/%d-%H:%M:%S(%Z)` and a space, as a format of numbers. -/
def stampFormat : List Directive := format "%d/%02d/%02d-%02d:%02d:%02d(%s) "

def Timestamp.args (t : Timestamp) : List Arg :=
  [.num t.year, .num t.month, .num t.day, .num t.hour, .num t.minute, .num t.second, .str t.zone]

/-- The text of a line; `none` is a log without timestamps. -/
def fullLine (stamp : Option Timestamp) (ds : List Directive) (as : List Arg) : List Char :=
  (stamp.elim [] fun t => render stampFormat t.args) ++ render ds as

/-- The line that `VLogF` builds in its buffer of 4096 characters. -/
def logLine (stamp : Option Timestamp) (ds : List Directive) (as : List Arg) : List Char :=
  let line := fullLine stamp ds as
  if 4096 ≤ line.length then line.take 4095 ++ ['\n'] else line

/-- The line of a report. -/
def reportLine (stamp : Option Timestamp) (c : LogContext) (r : ErrorRecord) (p : FailPrinter) :
    List Char := logLine stamp (parse none (failFormat p)) (failArgs c r p)

/-! ## The shapes of the four formats -/

/-- The format of a report, with the generated fields in place. -/
def failShape (stamp : List Directive) (kind : List Char) (location : List Directive) :
    FailPrinter → FailShape
  | .worker =>
      { pre := stamp ++ format "%s: "
        post := format " on CPU %d(<-%d)"
        mid := format ":%s): "
        sep := format ", "
        tail := format ". '%s'; " ++ (text kind ++ (format ", worker:%s, phase:%s, pattern_offset:%u, " ++
          (location ++ format ", ")))
        rest := format "%s, cur_freq:%s, ddr_freq(%s)%s.\n" }
  | .file =>
      { pre := stamp ++ format "%s: "
        post := format " on %s"
        mid := format ":%s): "
        sep := format ", "
        tail := format ". '%s'; " ++ (text kind ++ format ", ")
        rest := format "%s, cur_freq:%s, ddr_freq(%s).\n" }
  | .tag =>
      { pre := stamp ++ format "%s: Tag from %p(0x%llx:%s) (%s) "
        post := format " on CPU %d(0x%s)"
        mid := format ":%s): "
        sep := format ", "
        tail := format ". " ++ (text kind ++ format ", ")
        rest := format "%s, cur_freq:%s, ddr_freq(%s).\n" }
  | .region =>
      { pre := stamp ++ format "%s: "
        post := format " on %s, CRC check"
        mid := format "), offset %llx: "
        sep := format " "
        tail := format ". " ++ (text kind ++ format ", ")
        rest := format "%s, cur_freq:%s, ddr_freq(%s).\n" }

/-- The two formats of the SAT location. -/
def locations : List (List Directive) :=
  [format "sat_block:%llu,sat_offset:0x%llx,block_offset:0x%llx",
   format "sat_block:unknown,sat_offset:unknown,block_offset:unknown"]

theorem failShape_ok : ∀ stamp ∈ [[], stampFormat], ∀ kind ∈ [errorKind true, errorKind false],
    ∀ location ∈ locations, ∀ p ∈ [FailPrinter.worker, .file, .tag, .region],
      (failShape stamp kind location p).ok = true := by
  decide +kernel

/-- The directives of a report before its generated fields are printed in place: `first` and `second`
stand before and after the kind of error. -/
def reportFormat (f : FailShape) (first second : List Directive) : List Directive :=
  f.pre ++ (format "miscompare" ++ (f.post ++ (format " at %p(0x%llx" ++ (f.mid ++
    (format "read:0x%016llx, reread:0x%016llx" ++ (f.sep ++ (format "expected:0x%016llx" ++
    (first ++ .conv 's' 0 :: (second ++ .conv 's' 0 :: (format ", cur_mode:" ++ f.rest))))))))))

def reportArgs (v : FailArgs) (first second : List Arg) (kind : List Char) : List Arg :=
  v.pre ++ ([] ++ (v.post ++ ([.num v.vaddr.toNat, .num v.paddr.toNat] ++ (v.mid ++
    ([.num v.actual.toNat, .num v.reread.toNat] ++ ([] ++ ([.num v.expected.toNat] ++
    (first ++ .str kind :: (second ++ .str ("ch:".toList ++ v.coords) :: v.rest)))))))))

/-- Printing the kind of error and the coordinates in place. The fields between them may be printed
in place as well. -/
theorem render_report {f : FailShape} {v : FailArgs} {first second second' : List Directive}
    {firstArgs secondArgs secondArgs' : List Arg} {kind : List Char} (hpre : Fits f.pre v.pre)
    (hpost : Fits f.post v.post) (hmid : Fits f.mid v.mid) (hsep : Fits f.sep [])
    (hfirst : Fits first firstArgs) (hsecond : Fits second secondArgs)
    (htail : f.tail = first ++ (text kind ++ second)) (htailArgs : v.tail = firstArgs ++ secondArgs)
    (hsame : ∀ es bs, render (second' ++ es) (secondArgs' ++ bs) =
      render (second ++ es) (secondArgs ++ bs)) :
    render (reportFormat f first second') (reportArgs v firstArgs secondArgs' kind) =
      render f.directives v.args := by
  have hmode : format "ch:%s, cur_mode:" =
      text "ch:".toList ++ .conv 's' 0 :: format ", cur_mode:" := rfl
  simp only [reportFormat, reportArgs, FailShape.directives, FailShape.beforeExpected,
    FailShape.beforeRead, FailShape.beforeCoords, FailArgs.args, FailArgs.beforeExpected,
    FailArgs.beforeRead, FailArgs.beforeCoords, List.append_assoc, hmode, htail, htailArgs]
  rw [render_append hpre, render_append hpre, render_append fits_miscompare,
    render_append fits_miscompare, render_append hpost, render_append hpost, render_append (fits_at _ _),
    render_append (fits_at _ _), render_append hmid, render_append hmid, render_append (fits_read _ _),
    render_append (fits_read _ _), render_append hsep, render_append hsep,
    render_append (fits_expected _), render_append (fits_expected _), render_append hfirst,
    render_append hfirst]
  congr 9
  rw [render, hsame, render_append hsecond, render_text, render_append hsecond, List.cons_append,
    render_text]
  simp only [List.cons_append, List.nil_append, render, Arg.text, List.append_assoc]

/-- The coordinates after `ch:`. -/
def coordinatesTail (profile : DramAddressMapProfile) (physicalAddress : Word64) : List Char :=
  (formatDramCoordinates profile physicalAddress).drop 3

theorem formatDramCoordinates_eq (profile : DramAddressMapProfile) (physicalAddress : Word64) :
    formatDramCoordinates profile physicalAddress =
      "ch:".toList ++ coordinatesTail profile physicalAddress := by
  rw [coordinatesTail, formatDramCoordinates]
  split <;> rfl

def stampDirectives : Option Timestamp → List Directive
  | none => []
  | some _ => stampFormat

def stampArgs : Option Timestamp → List Arg
  | none => []
  | some t => t.args

theorem fits_stamp (stamp : Option Timestamp) : Fits (stampDirectives stamp) (stampArgs stamp) := by
  cases stamp with
  | none => rfl
  | some t => exact show kinds stampFormat = [false, false, false, false, false, false, true] from rfl

/-- The kind of error that a report names in its last fields. -/
def FailPrinter.kind (r : ErrorRecord) : FailPrinter → List Char
  | .tag => errorKind (r.actual ≠ r.reread)
  | _ => errorKind (r.reread = r.expected)

/-- The arguments of a report, by the pieces of its shape. -/
def failParts (stamp : Option Timestamp) (c : LogContext) (r : ErrorRecord) : FailPrinter → FailArgs
  | .worker =>
      { pre := stampArgs stamp ++ [.str c.message]
        post := [.num c.coreId, .num r.lastcpu.toInt]
        vaddr := r.vaddr
        paddr := r.paddr
        mid := [.str c.dimm]
        actual := r.actual
        reread := r.reread
        expected := r.expected
        tail := [.str (r.patternname.getD "None".toList)] ++ ([.str r.workerName, .str r.phase,
          .num r.patternByteOffset.toNat] ++ ((satLocation c r).2 ++ []))
        coords := coordinatesTail c.profile r.paddr
        rest := [.str c.mode, .str (formatDramFrequencyValue r.rereadDramFrequency),
          .str (formatDramFrequencies r), .str (blockHistorySuffix c r)] }
  | .file =>
      { pre := stampArgs stamp ++ [.str c.message]
        post := [.str c.device]
        vaddr := r.vaddr
        paddr := r.paddr
        mid := [.str c.dimm]
        actual := r.actual
        reread := r.reread
        expected := r.expected
        tail := [.str (r.patternname.getD "None".toList)] ++ []
        coords := coordinatesTail c.profile r.paddr
        rest := [.str c.mode, .str (formatDramFrequencyValue r.rereadDramFrequency),
          .str (formatDramFrequencies r)] }
  | .tag =>
      { pre := stampArgs stamp ++ [.str c.message, .num r.tagvaddr.toNat, .num r.tagpaddr.toNat,
          .str c.tagDimm, .str (errorKind (r.actual ≠ r.reread))]
        post := [.num c.coreId, .str c.cpus]
        vaddr := r.vaddr
        paddr := r.paddr
        mid := [.str c.dimm]
        actual := r.actual
        reread := r.reread
        expected := r.expected
        tail := [] ++ []
        coords := coordinatesTail c.profile r.paddr
        rest := [.str c.mode, .str (formatDramFrequencyValue r.rereadDramFrequency),
          .str (formatDramFrequencies r)] }
  | .region =>
      { pre := stampArgs stamp ++ [.str c.message]
        post := [.str c.identifier]
        vaddr := r.vaddr
        paddr := r.paddr
        mid := [.num (bufferOffset c r).toNat]
        actual := r.actual
        reread := r.reread
        expected := r.expected
        tail := [] ++ []
        coords := coordinatesTail c.profile r.paddr
        rest := [.str c.mode, .str (formatDramFrequencyValue r.rereadDramFrequency),
          .str (formatDramFrequencies r)] }

theorem fits_satLocation (c : LogContext) (r : ErrorRecord) :
    Fits (satLocation c r).1 (satLocation c r).2 := by
  rw [satLocation]
  split
  · exact show kinds (format "sat_block:%llu,sat_offset:0x%llx,block_offset:0x%llx") =
      [false, false, false] from rfl
  · exact show kinds (format "sat_block:unknown,sat_offset:unknown,block_offset:unknown") = [] from rfl

/-- The directives between the expected value and the kind of error. -/
def failFirst : FailPrinter → List Directive
  | .worker | .file => format ". '%s'; "
  | .tag | .region => format ". "

def failFirstArgs (r : ErrorRecord) : FailPrinter → List Arg
  | .worker | .file => [.str (r.patternname.getD "None".toList)]
  | .tag | .region => []

/-- The directives between the kind of error and the coordinates. -/
def failSecond : FailPrinter → List Directive
  | .worker => format ", worker:%s, phase:%s, pattern_offset:%u, " ++ .conv 's' 0 :: format ", "
  | _ => format ", "

def failSecondArgs (c : LogContext) (r : ErrorRecord) : FailPrinter → List Arg
  | .worker => [.str r.workerName, .str r.phase, .num r.patternByteOffset.toNat] ++
      .str (render (satLocation c r).1 (satLocation c r).2) :: []
  | _ => []

/-- The format of a report is its shape before printing in place. -/
theorem format_failFormat (stamp : List Directive) (kind : List Char) (location : List Directive)
    (p : FailPrinter) : stamp ++ parse none (failFormat p) =
      reportFormat (failShape stamp kind location p) (failFirst p) (failSecond p) := by
  -- the part after the timestamp is a closed list
  have hstamp {ds es : List Directive} (h : ds = es) : stamp ++ ds = stamp ++ es := by rw [h]
  cases p with
  | worker =>
      simp only [reportFormat, failShape, List.append_assoc]
      exact hstamp (by decide +kernel)
  | file =>
      simp only [reportFormat, failShape, List.append_assoc]
      exact hstamp (by decide +kernel)
  | tag =>
      simp only [reportFormat, failShape, List.append_assoc]
      exact hstamp (by decide +kernel)
  | region =>
      simp only [reportFormat, failShape, List.append_assoc]
      exact hstamp (by decide +kernel)

theorem failArgs_eq (stamp : Option Timestamp) (c : LogContext) (r : ErrorRecord) (p : FailPrinter) :
    stampArgs stamp ++ failArgs c r p = reportArgs (failParts stamp c r p) (failFirstArgs r p)
      (failSecondArgs c r p) (p.kind r) := by
  cases p <;> simp [failArgs, reportArgs, failParts, failFirstArgs, failSecondArgs, FailPrinter.kind,
    formatDramCoordinates_eq]

theorem failSecond_same (stamp : List Directive) (kind : List Char) (c : LogContext) (r : ErrorRecord)
    (p : FailPrinter) : ∃ second secondArgs,
      (failShape stamp kind (satLocation c r).1 p).tail = failFirst p ++ (text kind ++ second) ∧
      (∀ t, (failParts t c r p).tail = failFirstArgs r p ++ secondArgs) ∧ Fits second secondArgs ∧
      ∀ es bs, render (failSecond p ++ es) (failSecondArgs c r p ++ bs) =
        render (second ++ es) (secondArgs ++ bs) := by
  have hcomma : Fits (format ", ") [] := rfl
  cases p with
  | worker =>
      have hworker : Fits (format ", worker:%s, phase:%s, pattern_offset:%u, ") [.str r.workerName,
          .str r.phase, .num r.patternByteOffset.toNat] :=
        show kinds (format ", worker:%s, phase:%s, pattern_offset:%u, ") = [true, true, false] from rfl
      refine ⟨_, _, rfl, fun _ => rfl, hworker.append ((fits_satLocation c r).append hcomma), ?_⟩
      intro es bs
      simp only [failSecond, failSecondArgs, List.append_assoc, List.cons_append, List.nil_append]
      exact render_expand hworker (fits_satLocation c r)
  | file => exact ⟨_, _, rfl, fun _ => rfl, hcomma, fun _ _ => rfl⟩
  | tag => exact ⟨_, _, rfl, fun _ => rfl, hcomma, fun _ _ => rfl⟩
  | region => exact ⟨_, _, rfl, fun _ => rfl, hcomma, fun _ _ => rfl⟩

/-! ## The generated fields -/

theorem kind_mem (r : ErrorRecord) (p : FailPrinter) : p.kind r ∈ [errorKind true, errorKind false] := by
  have hmem (b : Bool) : errorKind b ∈ [errorKind true, errorKind false] := by cases b <;> simp
  cases p <;> exact hmem _

theorem satLocation_mem (c : LogContext) (r : ErrorRecord) : (satLocation c r).1 ∈ locations := by
  rw [satLocation]
  split <;> simp [locations]

/-- The format and the arguments of a frequency. -/
def frequencyParts (frequency : Int) : List Directive × List Arg :=
  if 0 ≤ frequency then (format "%d", [.num frequency]) else (text "unknown".toList, [])

theorem formatDramFrequencyValue_eq (frequency : Int) : formatDramFrequencyValue frequency =
    render (frequencyParts frequency).1 (frequencyParts frequency).2 := by
  rw [formatDramFrequencyValue, frequencyParts]
  split
  · rfl
  · decide

theorem fits_frequencyParts (frequency : Int) :
    Fits (frequencyParts frequency).1 (frequencyParts frequency).2 := by
  rw [frequencyParts]
  split
  · exact show kinds (format "%d") = [false] from rfl
  · exact show kinds (text "unknown".toList) = [] from rfl

theorem frequencyParts_mem (frequency : Int) :
    (frequencyParts frequency).1 ∈ [format "%d", text "unknown".toList] := by
  rw [frequencyParts]
  split <;> simp

theorem avoid_frequencyParts (needle : List Char) (frequency : Int) :
    Avoid needle (frequencyParts frequency).2 := by
  intro s hs
  rw [frequencyParts] at hs
  split at hs <;> simp at hs

theorem not_at_frequencyValue (frequency : Int) :
    ¬ " at ".toList <:+: formatDramFrequencyValue frequency := by
  have hclear : ∀ ds ∈ [format "%d", text "unknown".toList], clear " at ".toList ds = true := by decide
  rw [formatDramFrequencyValue_eq]
  exact not_infix_of_clear (by decide) (fits_frequencyParts _) (hclear _ (frequencyParts_mem _))
    (avoid_frequencyParts _ _)

theorem not_at_frequencies (r : ErrorRecord) : ¬ " at ".toList <:+: formatDramFrequencies r := by
  have hclear : ∀ ds ∈ [format "%d", text "unknown".toList], ∀ es ∈ [format "%d", text "unknown".toList],
      ∀ fs ∈ [format "%d", text "unknown".toList], clear " at ".toList (format "write=" ++ (ds ++
        (format " read=" ++ (es ++ (format " reread=" ++ (fs ++ [])))))) = true := by decide
  have hformat : format "write=%s read=%s reread=%s" = format "write=" ++ .conv 's' 0 ::
      (format " read=" ++ .conv 's' 0 :: (format " reread=" ++ .conv 's' 0 :: [])) := rfl
  have hwrite : Fits (format "write=") [] := rfl
  have hread : Fits (format " read=") [] := rfl
  have hreread : Fits (format " reread=") [] := rfl
  have h₁ := fits_frequencyParts r.writeDramFrequency
  have h₂ := fits_frequencyParts r.readDramFrequency
  have h₃ := fits_frequencyParts r.rereadDramFrequency
  have hrender : formatDramFrequencies r = render (format "write=" ++
      ((frequencyParts r.writeDramFrequency).1 ++ (format " read=" ++
      ((frequencyParts r.readDramFrequency).1 ++ (format " reread=" ++
      ((frequencyParts r.rereadDramFrequency).1 ++ []))))))
      ([] ++ ((frequencyParts r.writeDramFrequency).2 ++ ([] ++
      ((frequencyParts r.readDramFrequency).2 ++ ([] ++
      ((frequencyParts r.rereadDramFrequency).2 ++ [])))))) := by
    rw [render_append hwrite, render_append h₁, render_append hread, render_append h₂,
      render_append hreread, render_append h₃, formatDramFrequencies, hformat]
    change render _ ([] ++ .str _ :: ([] ++ .str _ :: ([] ++ .str _ :: []))) = _
    rw [render_append hwrite, render_str, render_append hread, render_str, render_append hreread,
      render_str]
    simp only [formatDramFrequencyValue_eq]
  rw [hrender]
  refine not_infix_of_clear (by decide) (hwrite.append (h₁.append (hread.append (h₂.append
    (hreread.append (h₃.append rfl)))))) (hclear _ (frequencyParts_mem _) _ (frequencyParts_mem _) _
    (frequencyParts_mem _)) ?_
  intro s hs
  simp only [List.nil_append, List.append_nil, List.mem_append] at hs
  rcases hs with hs | hs | hs <;> exact avoid_frequencyParts _ _ s hs

theorem not_at_historyText (h : BlockHistory) : ¬ " at ".toList <:+: h.text := by
  have hwriter (w : BlockWriter) : ¬ " at ".toList <:+: w.name.toList := by cases w <;> decide
  refine not_infix_of_clear_lit (by decide) ?_ ')' (by decide +kernel) ?_
  · exact show kinds (format ("last_writer:%s,generation:%llu,writer_thread:%d,writer_cpu:%d," ++
      "write_age_us:%lld,freq_epoch_begin:%llu,freq_epoch_end:%llu,freq_span:%s")) =
      [true, false, false, false, false, false, false, true] by decide +kernel
  · intro s hs
    simp only [List.mem_cons, Arg.str.injEq, List.not_mem_nil, or_false, reduceCtorEq, false_or] at hs
    rcases hs with rfl | rfl
    · exact hwriter _
    · split <;> decide

theorem not_at_blockHistory (c : LogContext) (r : ErrorRecord) :
    ¬ " at ".toList <:+: blockHistorySuffix c r := by
  rw [blockHistorySuffix]
  split
  · decide
  · split
    · decide
    · next h heq =>
      refine not_infix_of_clear (by decide) (show kinds (format ", block_history(%s)") = [true] from rfl)
        (by decide) ?_
      intro s hs
      simp only [List.mem_cons, Arg.str.injEq, List.not_mem_nil, or_false] at hs
      rw [hs]
      exact not_at_historyText h

theorem skips_coordinates {needle : List Char} (hne : needle ≠ [])
    (hunknown : clear needle (format ("ch:unknown,rk:unknown,sc:unknown,bg:unknown,bank:unknown," ++
      "row:unknown,col:unknown")) = true)
    (hknown : clear needle (format "ch:%u,rk:%u,sc:%u,bg:%u,bank:%u,row:%x,col:%x") = true)
    (profile : DramAddressMapProfile) (physicalAddress : Word64) (t : List Char) :
    Skips needle (formatDramCoordinates profile physicalAddress) t := by
  rw [formatDramCoordinates]
  split
  · exact skips_of_clear hne (by rw [Fits]; decide) hunknown (fun s hs => by simp at hs) t
  · refine skips_of_clear hne ?_ hknown (fun s hs => by simp at hs) t
    exact show kinds (format "ch:%u,rk:%u,sc:%u,bg:%u,bank:%u,row:%x,col:%x") =
      [false, false, false, false, false, false, false] from rfl

theorem not_at_coordinatesTail (profile : DramAddressMapProfile) (physicalAddress : Word64) :
    ¬ " at ".toList <:+: coordinatesTail profile physicalAddress := by
  rintro ⟨x, y, hxy⟩
  have hskip : Skips " at ".toList (formatDramCoordinates profile physicalAddress) [] :=
    skips_coordinates (by decide) (by decide +kernel) (by decide) profile physicalAddress []
  refine hskip ("ch:".toList ++ x) (" at ".toList ++ y) ?_ (by simp) (by simp)
  rw [formatDramCoordinates_eq, ← hxy]
  simp only [List.append_assoc]

theorem not_infix_errorKind (b : Bool) : ¬ "read:0x".toList <:+: errorKind b ∧
    ¬ "expected:0x".toList <:+: errorKind b := by
  cases b <;> decide

/-! ## The round trip -/

/-- The texts that the parser searches for. -/
def delimiters : List (List Char) :=
  [" at ".toList, "read:0x".toList, "expected:0x".toList, "ch:".toList, ", cur_mode:".toList]

/-- A name that contains no delimiter. -/
def Plain (name : List Char) : Prop := ∀ d ∈ delimiters, ¬ d <:+: name

/-- The names in a report. -/
def FailPrinter.names (c : LogContext) (r : ErrorRecord) : FailPrinter → List (List Char)
  | .worker => [c.message, c.dimm, r.patternname.getD "None".toList, r.workerName, r.phase, c.mode]
  | .file => [c.message, c.device, c.dimm, r.patternname.getD "None".toList, c.mode]
  | .tag => [c.message, c.tagDimm, c.cpus, c.dimm, c.mode]
  | .region => [c.message, c.identifier, c.mode]

theorem str_not_mem_satLocation (c : LogContext) (r : ErrorRecord) (s : List Char) :
    Arg.str s ∉ (satLocation c r).2 := by
  rw [satLocation]
  split <;> simp

/-- The strings before the read value. -/
theorem mem_beforeRead {stamp : Option Timestamp} {c : LogContext} {r : ErrorRecord} {p : FailPrinter}
    {s : List Char} (hs : Arg.str s ∈ (failParts stamp c r p).pre ++ ((failParts stamp c r p).post ++
      (failParts stamp c r p).mid)) :
    s ∈ p.names c r ∨ (∃ t ∈ stamp, s = t.zone) ∨ ∃ b, s = errorKind b := by
  have hstamp (h : Arg.str s ∈ stampArgs stamp) : ∃ t ∈ stamp, s = t.zone := by
    cases stamp with
    | none => exact absurd h List.not_mem_nil
    | some t => exact ⟨t, rfl, by simpa [stampArgs, Timestamp.args] using h⟩
  rw [List.mem_append, List.mem_append] at hs
  cases p <;> simp only [failParts, List.mem_append, List.mem_cons, Arg.str.injEq, List.not_mem_nil,
    or_false, reduceCtorEq, false_or] at hs <;> simp only [FailPrinter.names, List.mem_cons,
    List.not_mem_nil, or_false]
  · rcases hs with (hs | hs) | hs
    · exact Or.inr (Or.inl (hstamp hs))
    · simp [hs]
    · simp [hs]
  · rcases hs with (hs | hs) | hs | hs
    · exact Or.inr (Or.inl (hstamp hs))
    all_goals simp [hs]
  · rcases hs with (hs | hs | hs | hs) | hs | hs
    · exact Or.inr (Or.inl (hstamp hs))
    · simp [hs]
    · simp [hs]
    · exact Or.inr (Or.inr ⟨_, hs⟩)
    all_goals simp [hs]
  · rcases hs with (hs | hs) | hs
    · exact Or.inr (Or.inl (hstamp hs))
    all_goals simp [hs]

theorem mem_tail {stamp : Option Timestamp} {c : LogContext} {r : ErrorRecord} {p : FailPrinter}
    {s : List Char} (hs : Arg.str s ∈ (failParts stamp c r p).tail) : s ∈ p.names c r := by
  have hlocation := str_not_mem_satLocation c r s
  cases p <;> simp [failParts, hlocation] at hs <;> simp only [FailPrinter.names, List.mem_cons]
  · rcases hs with hs | hs | hs
    all_goals simp [hs]
  · simp [hs]

/-- The strings after the physical address. -/
theorem mem_rest {stamp : Option Timestamp} {c : LogContext} {r : ErrorRecord} {p : FailPrinter}
    {s : List Char} (hs : Arg.str s ∈ (failParts stamp c r p).mid ++ (failParts stamp c r p).rest) :
    s ∈ p.names c r ∨ s = formatDramFrequencyValue r.rereadDramFrequency ∨
      s = formatDramFrequencies r ∨ s = blockHistorySuffix c r := by
  cases p <;> simp [failParts] at hs <;> simp only [FailPrinter.names, List.mem_cons] <;> tauto

theorem fits_failFirst (r : ErrorRecord) (p : FailPrinter) : Fits (failFirst p) (failFirstArgs r p) := by
  cases p <;> rfl

theorem failParts_coords (stamp : Option Timestamp) (c : LogContext) (r : ErrorRecord)
    (p : FailPrinter) : (failParts stamp c r p).coords = coordinatesTail c.profile r.paddr := by
  cases p <;> rfl

theorem failParts_accepts {stamp : Option Timestamp} {c : LogContext} {r : ErrorRecord}
    {p : FailPrinter} (hstamp : ∀ t ∈ stamp, Plain t.zone) (hnames : ∀ name ∈ p.names c r, Plain name) :
    (failShape (stampDirectives stamp) (p.kind r) (satLocation c r).1 p).Accepts
      (failParts stamp c r p) where
  pre := by cases p <;> exact (fits_stamp stamp).append rfl
  post := by cases p <;> rfl
  mid := by cases p <;> rfl
  sep := by cases p <;> rfl
  tail := by
    obtain ⟨second, secondArgs, htail, hargs, hfits, -⟩ := failSecond_same (stampDirectives stamp)
      (p.kind r) c r p
    rw [htail, hargs]
    exact (fits_failFirst r p).append ((fits_text _).append hfits)
  rest := by cases p <;> rfl
  read := by
    intro s hs
    rcases mem_beforeRead hs with hs | ⟨t, ht, rfl⟩ | ⟨b, rfl⟩
    · exact hnames s hs _ (by simp [delimiters])
    · exact hstamp t ht _ (by simp [delimiters])
    · exact (not_infix_errorKind b).1
  expected := by
    intro s hs
    rcases mem_beforeRead hs with hs | ⟨t, ht, rfl⟩ | ⟨b, rfl⟩
    · exact hnames s hs _ (by simp [delimiters])
    · exact hstamp t ht _ (by simp [delimiters])
    · exact (not_infix_errorKind b).2
  ch := fun s hs => hnames s (mem_tail hs) _ (by simp [delimiters])
  addr := by
    intro s hs
    simp only [List.mem_append, List.mem_cons] at hs
    have hother (hs : Arg.str s ∈ (failParts stamp c r p).mid ++ (failParts stamp c r p).rest) :
        ¬ " at ".toList <:+: s := by
      rcases mem_rest hs with hs | rfl | rfl | rfl
      · exact hnames s hs _ (by simp [delimiters])
      · exact not_at_frequencyValue _
      · exact not_at_frequencies r
      · exact not_at_blockHistory c r
    rcases hs with hs | hs | hs | hs
    · exact hother (List.mem_append_left _ hs)
    · exact hnames s (mem_tail hs) _ (by simp [delimiters])
    · rw [Arg.str.inj hs, failParts_coords]
      exact not_at_coordinatesTail _ _
    · exact hother (List.mem_append_right _ hs)
  mode := by
    intro t
    rw [failParts_coords, ← formatDramCoordinates_eq]
    exact skips_coordinates (by decide) (by decide +kernel) (by decide) _ _ t

theorem failShape_ok' (stamp : Option Timestamp) (c : LogContext) (r : ErrorRecord) (p : FailPrinter) :
    (failShape (stampDirectives stamp) (p.kind r) (satLocation c r).1 p).ok = true := by
  refine failShape_ok _ ?_ _ (kind_mem r p) _ (satLocation_mem c r) p ?_
  · cases stamp <;> simp [stampDirectives]
  · cases p <;> simp

/-- A report that fits in the buffer, in the pieces of its shape. -/
theorem reportLine_eq {stamp : Option Timestamp} {c : LogContext} {r : ErrorRecord} {p : FailPrinter}
    (haccepts : (failShape (stampDirectives stamp) (p.kind r) (satLocation c r).1 p).Accepts
      (failParts stamp c r p))
    (hlen : (fullLine stamp (parse none (failFormat p)) (failArgs c r p)).length < 4096) :
    reportLine stamp c r p =
      render (failShape (stampDirectives stamp) (p.kind r) (satLocation c r).1 p).directives
        (failParts stamp c r p).args := by
  obtain ⟨second, secondArgs, htail, hargs, hfits, hsame⟩ := failSecond_same (stampDirectives stamp)
    (p.kind r) c r p
  have hfull : fullLine stamp (parse none (failFormat p)) (failArgs c r p) =
      render (stampDirectives stamp ++ parse none (failFormat p))
        (stampArgs stamp ++ failArgs c r p) := by
    rw [render_append (fits_stamp stamp), fullLine]
    cases stamp <;> rfl
  rw [reportLine, logLine, if_neg (Nat.not_le.mpr hlen), hfull,
    format_failFormat _ (p.kind r) (satLocation c r).1, failArgs_eq]
  exact render_report haccepts.pre haccepts.post haccepts.mid haccepts.sep (fits_failFirst r p) hfits
    htail (hargs stamp) hsame

theorem failParts_values (stamp : Option Timestamp) (c : LogContext) (r : ErrorRecord)
    (p : FailPrinter) : (failParts stamp c r p).paddr = r.paddr ∧
      (failParts stamp c r p).actual = r.actual ∧ (failParts stamp c r p).expected = r.expected := by
  cases p <;> exact ⟨rfl, rfl, rfl⟩

/-- **The fail line round trip.** The parser finds the values of the record in every report whose
names contain no delimiter, and only the coordinates are replaced. -/
theorem fail_line_round_trip (p : FailPrinter) (stamp : Option Timestamp) (c : LogContext)
    (r : ErrorRecord) (hstamp : ∀ t ∈ stamp, Plain t.zone) (hnames : ∀ name ∈ p.names c r, Plain name)
    (hlen : (fullLine stamp (parse none (failFormat p)) (failArgs c r p)).length < 4096) :
    parseLoggedPhysicalAddress (reportLine stamp c r p) = some r.paddr ∧
    parseHexAfter (reportLine stamp c r p) "read:0x".toList = some r.actual ∧
    parseHexAfter (reportLine stamp c r p) "expected:0x".toList = some r.expected ∧
    ∃ before after, reportLine stamp c r p =
        before ++ (formatDramCoordinates c.profile r.paddr ++ after) ∧
      rewriteSm8975Lp6FailLine (reportLine stamp c r p) =
        before ++ (formatSm8975Lp6Rows r.paddr r.expected r.actual ++ after) := by
  have haccepts := failParts_accepts hstamp hnames
  have hok := failShape_ok' stamp c r p
  obtain ⟨hpaddr, hactual, hexpected⟩ := failParts_values stamp c r p
  have hrewrite := haccepts.rewrite hok
  have hline := haccepts.render_directives
  rw [reportLine_eq haccepts hlen]
  refine ⟨?_, ?_, ?_, (failShape (stampDirectives stamp) (p.kind r) (satLocation c r).1 p).before
    (failParts stamp c r p), (failShape (stampDirectives stamp) (p.kind r) (satLocation c r).1 p).after
    (failParts stamp c r p), ?_, ?_⟩
  · rw [haccepts.parse_address hok, hpaddr]
  · rw [haccepts.parse_actual hok, hactual]
  · rw [haccepts.parse_expected hok, hexpected]
  · rw [hline, formatDramCoordinates_eq, failParts_coords, List.append_assoc]
  · rw [hline, hrewrite, hpaddr, hactual, hexpected]

/-- A context with the names of a log without DIMM map. -/
def plainContext : LogContext where
  message := "Hardware Error".toList
  coreId := 3
  dimm := "DIMM Unknown".toList
  tagDimm := "DIMM Unknown".toList
  device := "/tmp/sat".toList
  identifier := "region".toList
  region := 0
  cpus := "FF".toList
  mode := "fixed".toList
  profile := .sm8975Lp6
  pageLength := 0x100000
  history := fun _ => none

/-- A tag error with two physical addresses and three values. -/
def tagRecord : ErrorRecord where
  actual := 0x7f0000001001
  reread := 0x7f0000001002
  expected := 0x7f0000001000
  vaddr := 0x7f0000001000
  paddr := 0x880001000
  tagvaddr := 0x7f0000001000
  tagpaddr := 0x880002000
  lastcpu := 0
  patternname := none
  workerName := "unknown".toList
  phase := "unknown".toList
  patternByteOffset := 0
  satPageOffset := ~~~0
  offsetInPage := ~~~0
  writeDramFrequency := 800
  readDramFrequency := -1
  rereadDramFrequency := -1

/-- The second address and the first value of a tag error are found. -/
theorem fail_line_round_trip_tag :
    parseLoggedPhysicalAddress (reportLine none plainContext tagRecord .tag) = some 0x880001000 ∧
    parseHexAfter (reportLine none plainContext tagRecord .tag) "read:0x".toList =
      some 0x7f0000001001 := by
  have h := fail_line_round_trip .tag none plainContext tagRecord (fun t ht => by simp at ht)
    (by unfold Plain; decide +kernel) (by decide +kernel)
  exact ⟨h.1, h.2.1⟩

end StressAppTest
