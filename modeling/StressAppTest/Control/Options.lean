import Mathlib.Logic.Function.Basic
import StressAppTest.Dram.Address
import StressAppTest.Library.Decimal
import StressAppTest.Memory.Fill
import StressAppTest.Workers.Supply

/-!
# Command line options (`Sat::ParseArgs`)

The loop takes one argument after the other; an option that takes a value takes the next argument,
whatever it looks like. The options are a table, in the order of the source, and `Kind` says what an
option does with its value. A value that is missing at the end is passed over by `ARG_IVALUE`,
`ARG_SVALUE`, `-d`, `-f`, `-n` and `--memory_channel`, and refused by the others. The build is the
one without test hooks.

* `parseLoop_inv`, `parseLoop_field`: what every option keeps holds of the result.
* `parseArgs_accepted`: what is known of options that have been accepted.
-/

namespace StressAppTest.Control

/-- The members of `Sat` for numbers and flags that `ParseArgs` sets. -/
inductive Field
  | runtimeSeconds | pageLength | diskPages | sizeMb | reserveMb | minHugepagesMbytes | paddrBase
  | channelHash | channelWidth | patternByteOffset | postFillDelaySeconds
  | runtimeStartDelaySeconds | dramStepSeconds | verbosity | printDelay | strict | warm
  | verifyAfterFill | copyVerifyDestination | prefaultPages | diagVmStats | diagBlockHistory
  | diagPhaseSummary | fillVerifyEvery | fillYieldBytes | finalCheckThreads
  | finalCheckThreadsExplicit | skipFinalCheck | runOnAnything | logTimestamps | errorInjection
  | crazyErrorInjection | maxErrorcount | stopOnError | errorLogLimit | errorPoll | findfiles
  | doPageMap | ccTest | ccCachelineCount | ccCachelineSize | ccIncCount | cpuFreqTest
  | cpuFreqThreshold | cpuFreqRound | fileThreads | netThreads | listenThreads | memoryThreads
  | invertThreads | fillThreads | checkThreads | cpuStressThreads | diskThreads | useAffinity
  | regionMode | readBlockSize | writeBlockSize | segmentSize | cacheSize | blocksPerSegment
  | readThreshold | writeThreshold | nonDestructive | monitorMode | tagMode | randomThreads
  | pauseDelay | pauseDuration | filesize
  deriving DecidableEq

/-- The value that the constructor of `Sat` leaves, and for `filesize` the one of `ParseArgs`. -/
def Field.default : Field → Int
  | .runtimeSeconds => 20
  | .pageLength => 1024 * 1024
  | .diskPages => 8
  | .channelHash => 64
  | .channelWidth => 64
  | .dramStepSeconds => 3
  | .verbosity => 8
  | .printDelay => 10
  | .strict => 1
  | .finalCheckThreads => 8
  | .logTimestamps => 1
  | .errorLogLimit => -1
  | .errorPoll => 1
  | .ccCachelineCount => 2
  | .ccIncCount => 1000
  | .cpuFreqRound => 10
  | .memoryThreads => -1
  | .fillThreads => 8
  | .useAffinity => 1
  | .readBlockSize => 512
  | .writeBlockSize => -1
  | .segmentSize => -1
  | .cacheSize => -1
  | .blocksPerSegment => -1
  | .readThreshold => -1
  | .writeThreshold => -1
  | .nonDestructive => 1
  | .pauseDelay => 600
  | .pauseDuration => 15
  | .filesize => 1024 * 1024 * 8
  | _ => 0

/-- The assignment of an `unsigned long long` to the member. -/
def Field.convert : Field → Nat → Int
  | .sizeMb, n | .reserveMb, n | .minHugepagesMbytes, n | .segmentSize, n | .pauseDuration, n =>
      (n : Int).bmod (2 ^ 64)
  | .maxErrorcount, n | .filesize, n | .paddrBase, n | .channelHash, n => n % 2 ^ 64
  | _, n => (n : Int).bmod (2 ^ 32)

/-- What `ParseArgs` sets. -/
structure Options where
  value : Field → Int
  peQImplementation : QueueImplementation
  fillPreset : FillPreset
  fillDirection : FillDirection
  invertRange : InvertRange
  dramAddressMapProfile : DramAddressMapProfile
  patternSelector : String
  dramFrequencies : List Int
  dramSweep : Bool
  dramFrequencyNode : String
  logfilename : String
  useLogfile : Bool
  size : Int
  diskfilename : List String
  filename : List String
  ipaddrs : List String
  channels : List (List (List Char))

namespace Options

/-- What the constructor of `Sat` leaves. -/
def initial : Options where
  value := Field.default
  peQImplementation := .fineLock
  fillPreset := .none
  fillDirection := .up
  invertRange := .legacy
  dramAddressMapProfile := .none
  patternSelector := ""
  dramFrequencies := []
  dramSweep := false
  dramFrequencyNode := "/sys/kernel/debug/aoss_send_message"
  logfilename := ""
  useLogfile := false
  size := 0
  diskfilename := []
  filename := []
  ipaddrs := []
  channels := []

def set (o : Options) (f : Field) (v : Int) : Options :=
  { o with value := Function.update o.value f v }

@[simp] theorem set_profile (o : Options) (f : Field) (v : Int) :
    (o.set f v).dramAddressMapProfile = o.dramAddressMapProfile := rfl

end Options

/-! ## Values -/

/-- `ParsePositiveInt` and `ParseNonNegativeInt`, which differ in the least number. -/
def parseIntFrom (least : Int) (value : String) : Option Int :=
  let parsed := Text.strtol10 value.toList
  if parsed.errno || parsed.endPos = 0 || parsed.endPos ≠ value.length || parsed.value < least ||
    2 ^ 31 ≤ parsed.value then none else some parsed.value

def parsePositiveInt : String → Option Int := parseIntFrom 1

def parseNonNegativeInt : String → Option Int := parseIntFrom 0

def kAllDramFrequencies : List Int :=
  [547, 768, 1017, 1353, 1555, 1708, 2092, 2736, 3196, 4266, 5333]

/-- `ParseDramFrequencyList` -/
def parseDramFrequencyList (value : String) : Option (List Int) :=
  if value = "all" then some kAllDramFrequencies
  else (value.toList.splitOn ',').mapM fun item => parsePositiveInt (String.ofList item)

/-- `kMaxDiagnosticWorkerCount` -/
def kMaxDiagnosticWorkerCount : Int := 256

/-! ## The table -/

/-- What an option does. -/
inductive Kind
  /-- `ARG_KVALUE` -/
  | kvalue (f : Field) (v : Int)
  | coarseGrainLock
  /-- `ARG_IVALUE` -/
  | ivalue (f : Field)
  /-- `ARG_SVALUE` -/
  | logfile
  | diskfilename
  | filename
  | ipaddr
  | memoryChannel
  /-- A number that must pass a check. -/
  | checked (f : Field) (parse : String → Option Int) (accepts : Int → Bool) (message : String)
  | finalCheckThreads
  | patternSelector
  | fillPreset
  | fillDirection
  | invertRange
  | ddrFreq
  | ddrNode
  | dramMap

/-- The option that is the argument by itself. -/
def Kind.flag (o : Options) : Kind → Option Options
  | kvalue f v => some (o.set f v)
  | coarseGrainLock => some { o with peQImplementation := .oneLock }
  | _ => none

/-- The message for a missing value, if it is refused. -/
def Kind.missing : Kind → Option String
  | checked _ _ _ message => some message
  | finalCheckThreads => some "--final-check-threads requires a count from 1 to 256"
  | patternSelector => some "-P requires IDs or names separated by commas"
  | fillPreset => some "--fill-preset requires none, zero, or one"
  | fillDirection => some "--fill-direction requires up or down"
  | invertRange => some "--invert-range requires legacy or full"
  | ddrFreq => some "--ddr-freq requires one frequency, a comma-separated list, or 'all'"
  | ddrNode => some "--ddr-node requires a path"
  | dramMap => some "--dram-map requires a profile"
  | _ => none

/-- What the option does with its value, or the message. -/
def Kind.store (o : Options) (v : String) : Kind → Except String Options
  | kvalue _ _ | coarseGrainLock => .ok o
  | ivalue f => .ok (o.set f (f.convert (Text.strtoull0 v.toList)))
  | logfile => .ok { o with logfilename := String.ofList (v.toList.take 254) }
  | diskfilename => .ok { o.set .diskThreads (o.value .diskThreads + 1) with
      diskfilename := o.diskfilename ++ [v] }
  | filename => .ok { o.set .fileThreads (o.value .fileThreads + 1) with
      filename := o.filename ++ [v] }
  | ipaddr => .ok { o.set .netThreads (o.value .netThreads + 1) with ipaddrs := o.ipaddrs ++ [v] }
  | memoryChannel => .ok { o with channels := o.channels ++ [v.toList.splitOn ','] }
  | checked f parse accepts message =>
      match parse v with
      | some n => if accepts n then .ok (o.set f n) else .error message
      | none => .error message
  | finalCheckThreads =>
      match parsePositiveInt v with
      | some n =>
          if n ≤ kMaxDiagnosticWorkerCount then
            .ok ((o.set .finalCheckThreads n).set .finalCheckThreadsExplicit 1)
          else .error "--final-check-threads requires a count from 1 to 256"
      | none => .error "--final-check-threads requires a count from 1 to 256"
  | patternSelector => .ok { o with patternSelector := v }
  | fillPreset =>
      if v = "none" then .ok { o with fillPreset := .none }
      else if v = "zero" then .ok { o with fillPreset := .zero }
      else if v = "one" then .ok { o with fillPreset := .one }
      else .error "--fill-preset requires none, zero, or one"
  | fillDirection =>
      if v = "up" then .ok { o with fillDirection := .up }
      else if v = "down" then .ok { o with fillDirection := .down }
      else .error "--fill-direction requires up or down"
  | invertRange =>
      if v = "legacy" then .ok { o with invertRange := .legacy }
      else if v = "full" then .ok { o with invertRange := .full }
      else .error "--invert-range requires legacy or full"
  | ddrFreq =>
      if o.dramFrequencies ≠ [] then .error "--ddr-freq may be specified once"
      else
        match parseDramFrequencyList v with
        | some l => .ok { o with dramFrequencies := l, dramSweep := 1 < l.length }
        | none => .error ("Invalid --ddr-freq value '" ++ v ++ "'")
  | ddrNode =>
      if v = "" then .error "--ddr-node requires a path" else .ok { o with dramFrequencyNode := v }
  | dramMap =>
      -- the value of `DRAM_ADDRESS_MAP_LPDDR_V1` is that of `DRAM_ADDRESS_MAP_SM8975_LP6`
      if v = "lpddr-v1" then .ok { o with dramAddressMapProfile := .sm8975Lp6 }
      else if v = "none" then .ok { o with dramAddressMapProfile := .none }
      else .error ("Invalid --dram-map profile '" ++ v ++ "'")

/-- A `ParsePositiveInt` option. -/
def Kind.positive (f : Field) (message : String) : Kind :=
  .checked f parsePositiveInt (fun _ => true) message

/-- A `ParseNonNegativeInt` option. -/
def Kind.nonNegative (f : Field) (message : String) : Kind :=
  .checked f parseNonNegativeInt (fun _ => true) message

/-- The options that are tried before `crazy_error_injection_` is looked at. -/
def earlyOptions : List (String × Kind) := [
  ("--coarse_grain_lock", .coarseGrainLock),
  ("-M", .ivalue .sizeMb),
  ("--reserve_memory", .ivalue .reserveMb),
  ("-H", .ivalue .minHugepagesMbytes),
  ("-s", .ivalue .runtimeSeconds),
  ("-P", .patternSelector),
  ("--pattern-byte-offset", .checked .patternByteOffset parseNonNegativeInt (fun n => n % 4 == 0)
    "--pattern-byte-offset requires a non-negative multiple of 4 bytes"),
  ("--fill-preset", .fillPreset),
  ("--verify-after-fill", .kvalue .verifyAfterFill 1),
  ("--copy-verify-destination", .kvalue .copyVerifyDestination 1),
  ("--prefault-pages", .kvalue .prefaultPages 1),
  ("--diag-vm-stats", .kvalue .diagVmStats 1),
  ("--diag-block-history", .kvalue .diagBlockHistory 1),
  ("--diag-phase-summary", .kvalue .diagPhaseSummary 1),
  ("--post-fill-delay", .nonNegative .postFillDelaySeconds
    "--post-fill-delay requires non-negative seconds"),
  ("--fill-threads", .checked .fillThreads parsePositiveInt (· ≤ kMaxDiagnosticWorkerCount)
    "--fill-threads requires a count from 1 to 256"),
  ("--fill-direction", .fillDirection),
  ("--fill-verify-every", .positive .fillVerifyEvery
    "--fill-verify-every requires a positive SAT block interval"),
  ("--fill-yield-bytes", .checked .fillYieldBytes parsePositiveInt (fun n => n % 64 == 0)
    "--fill-yield-bytes requires a positive multiple of 64 bytes"),
  ("--runtime-start-delay", .nonNegative .runtimeStartDelaySeconds
    "--runtime-start-delay requires non-negative seconds"),
  ("--invert-range", .invertRange),
  ("--final-check-threads", .finalCheckThreads),
  ("--skip-final-check", .kvalue .skipFinalCheck 1),
  ("--ddr-freq", .ddrFreq),
  ("--ddr-step", .positive .dramStepSeconds "--ddr-step requires positive seconds"),
  ("--ddr-node", .ddrNode),
  ("--dram-map", .dramMap),
  ("-m", .ivalue .memoryThreads),
  ("-i", .ivalue .invertThreads),
  ("-c", .ivalue .checkThreads),
  ("--cc_inc_count", .ivalue .ccIncCount),
  ("--cc_line_count", .ivalue .ccCachelineCount),
  ("--cc_line_size", .ivalue .ccCachelineSize),
  ("--cc_test", .kvalue .ccTest 1),
  ("--cpu_freq_test", .kvalue .cpuFreqTest 1),
  ("--cpu_freq_threshold", .ivalue .cpuFreqThreshold),
  ("--cpu_freq_round", .ivalue .cpuFreqRound),
  ("-C", .ivalue .cpuStressThreads),
  ("-l", .logfile),
  ("-v", .ivalue .verbosity),
  ("--printsec", .positive .printDelay "--printsec requires positive seconds"),
  ("--no_timestamps", .kvalue .logTimestamps 0),
  ("--max_errors", .ivalue .maxErrorcount),
  ("-p", .ivalue .pageLength),
  ("--filesize", .ivalue .filesize),
  ("--no_affinity", .kvalue .useAffinity 0),
  ("--local_numa", .kvalue .regionMode 1),
  ("--remote_numa", .kvalue .regionMode 2),
  ("--findfiles", .kvalue .findfiles 1),
  ("--force_errors", .kvalue .errorInjection 1),
  ("--force_errors_like_crazy", .kvalue .crazyErrorInjection 1)]

/-- The options that are tried after it. -/
def lateOptions : List (String × Kind) := [
  ("--stop_on_errors", .kvalue .stopOnError 1),
  ("--error-log-limit", .nonNegative .errorLogLimit
    "--error-log-limit requires a non-negative count"),
  ("--no_errors", .kvalue .errorPoll 0),
  ("-F", .kvalue .strict 0),
  ("-W", .kvalue .warm 1),
  ("-A", .kvalue .runOnAnything 1),
  ("--read-block-size", .ivalue .readBlockSize),
  ("--write-block-size", .ivalue .writeBlockSize),
  ("--segment-size", .ivalue .segmentSize),
  ("--cache-size", .ivalue .cacheSize),
  ("--blocks-per-segment", .ivalue .blocksPerSegment),
  ("--read-threshold", .ivalue .readThreshold),
  ("--write-threshold", .ivalue .writeThreshold),
  ("--destructive", .kvalue .nonDestructive 0),
  ("--monitor_mode", .kvalue .monitorMode 1),
  ("--tag_mode", .kvalue .tagMode 1),
  ("--do_page_map", .kvalue .doPageMap 1),
  ("--paddr_base", .ivalue .paddrBase),
  ("--pause_delay", .positive .pauseDelay "--pause_delay requires positive seconds"),
  ("--pause_duration", .ivalue .pauseDuration),
  ("-d", .diskfilename),
  ("--random-threads", .ivalue .randomThreads),
  ("-f", .filename),
  ("-n", .ipaddr),
  ("--listen", .kvalue .listenThreads 1),
  ("--channel_hash", .ivalue .channelHash),
  ("--channel_width", .ivalue .channelWidth),
  ("--memory_channel", .memoryChannel)]

def kindOf (arg : String) : Option Kind := (earlyOptions ++ lateOptions).lookup arg

/-! ## `ParseArgs` -/

/-- Why there are no options. -/
inductive Refusal
  | refused (message : String)
  | exit (status : Nat)

/-- `if (crazy_error_injection_) error_injection_ = true;`, for an argument that comes as far. -/
def Options.injecting (o : Options) (arg : String) : Options :=
  if (earlyOptions.lookup arg).isNone && o.value .crazyErrorInjection != 0 then
    o.set .errorInjection 1
  else o

/-- The loop over the arguments. -/
def parseLoop (o : Options) : List String → Except Refusal Options
  | [] => .ok o
  | arg :: rest =>
      match kindOf arg with
      | none => .error (.exit (if arg = "-h" ∨ arg = "--help" then 0 else 1))
      | some kind =>
          match kind.flag (o.injecting arg), rest with
          | some o, rest => parseLoop o rest
          | none, [] =>
              match kind.missing with
              | some message => .error (.refused message)
              | none => .ok (o.injecting arg)
          | none, v :: rest =>
              match kind.store (o.injecting arg) v with
              | .ok o => parseLoop o rest
              | .error message => .error (.refused message)

/-- `x & (x - 1)` of an `int`. -/
def andPred (x : Int) : BitVec 32 := BitVec.ofInt 32 x &&& BitVec.ofInt 32 (x - 1)

/-- The checks of the channel options. -/
def checkChannels (o : Options) : Except Refusal Options :=
  match o.channels with
  | [] => .ok o
  | first :: rest =>
      if 1 < rest.length then .error (.refused "Triple-channel mode not yet supported... sorry.")
      else if rest.any (·.length ≠ first.length) then
        .error (.refused "Channels 0 and 1 have a different count of dram modules.")
      else if first.length &&& (first.length - 1) ≠ 0 then
        .error (.refused "Amount of modules per memory channel is not a power of 2.")
      else if o.value .channelWidth < 16 ∨ andPred (o.value .channelWidth) ≠ 0 then
        .error (.refused ("Channel width " ++ toString (o.value .channelWidth) ++ " is invalid."))
      else if (o.value .channelWidth).toNat / first.length < 8 then
        .error (.refused ("Chip width x" ++
          toString ((o.value .channelWidth).toNat / first.length) ++ " must be x8 or greater."))
      else .ok (if rest = [] then o.set .channelHash 0 else o)

/-- `disk_pages_`, when the size of a file or of a page has changed. -/
def setDiskPages (o : Options) : Options :=
  if o.value .filesize ≠ o.value .pageLength * o.value .diskPages then
    let diskPages := Field.diskPages.convert (o.value .filesize / o.value .pageLength).toNat
    o.set .diskPages (if diskPages = 0 then 1 else diskPages)
  else o

/-- What `ParseArgs` does after the loop. -/
def checkOptions (o : Options) : Except Refusal Options :=
  let o := { o with
    size := o.value .sizeMb * (1024 * 1024)
    useLogfile := o.logfilename ≠ "" }
  let pageLength := o.value .pageLength
  if pageLength = 0 ∨ andPred pageLength ≠ 0 ∨ pageLength ≤ 1023 then
    .error (.refused ("Invalid page size " ++ toString pageLength))
  else if pageLength < o.value .fillYieldBytes then
    .error (.refused ("--fill-yield-bytes " ++ toString (o.value .fillYieldBytes) ++
      " exceeds SAT block size " ++ toString pageLength))
  else if o.value .printDelay ≤ 0 ∨ o.value .pauseDelay ≤ 0 then
    .error (.refused "--printsec and --pause_delay must be greater than zero")
  else checkChannels (setDiskPages o)

/-- `Sat::ParseArgs`, without the name of the program. -/
def parseArgs (args : List String) : Except Refusal Options :=
  (parseLoop .initial args).bind checkOptions

/-! ## Invariants of the loop -/

theorem kindOf_mem {arg : String} {kind : Kind} (h : kindOf arg = some kind) :
    (arg, kind) ∈ earlyOptions ++ lateOptions := by
  unfold kindOf at h
  generalize earlyOptions ++ lateOptions = options at h
  induction options with
  | nil => cases h
  | cons e options ih =>
      rw [List.lookup_cons] at h
      split at h
      · next heq =>
          cases h
          rw [beq_iff_eq.mp heq]
          exact List.mem_cons_self
      · exact List.mem_cons_of_mem _ (ih h)

/-- **What every option keeps** holds after the loop. -/
theorem parseLoop_inv (P : Options → Prop) (hinjecting : ∀ o arg, P o → P (o.injecting arg))
    (hflag : ∀ arg kind o o', kindOf arg = some kind → P o → kind.flag o = some o' → P o')
    (hstore : ∀ arg kind v o o', kindOf arg = some kind → P o → kind.store o v = .ok o' → P o')
    {args : List String} {o o' : Options} (h : parseLoop o args = .ok o') (ho : P o) : P o' := by
  fun_induction parseLoop o args with
  | case1 o =>
      cases h
      exact ho
  | case2 => cases h
  | case3 o arg kind hkind o₁ rest hset ih =>
      apply ih h
      exact hflag arg kind _ _ hkind (hinjecting o arg ho) hset
  | case4 => cases h
  | case5 o arg kind hkind =>
      cases h
      exact hinjecting o arg ho
  | case6 o arg kind hkind v rest _ o₁ hstored ih =>
      apply ih h
      exact hstore arg kind v _ _ hkind (hinjecting o arg ho) hstored
  | case7 => cases h

/-- What the option writes into the member satisfies `Q`. -/
def Kind.Writes (f : Field) (Q : Int → Prop) : Kind → Prop
  | kvalue g v => g = f → Q v
  | ivalue g => g = f → ∀ n, Q (g.convert n)
  | checked g parse accepts _ => g = f → ∀ v n, parse v = some n → accepts n = true → Q n
  | diskfilename => f ≠ .diskThreads
  | filename => f ≠ .fileThreads
  | ipaddr => f ≠ .netThreads
  | finalCheckThreads => f ≠ .finalCheckThreads ∧ f ≠ .finalCheckThreadsExplicit
  | _ => True

/-- The option writes into the member. -/
def Kind.touches (f : Field) : Kind → Bool
  | kvalue g _ | ivalue g | checked g _ _ _ => g = f
  | diskfilename => f = .diskThreads
  | filename => f = .fileThreads
  | ipaddr => f = .netThreads
  | finalCheckThreads => f = .finalCheckThreads || f = .finalCheckThreadsExplicit
  | _ => false

theorem Kind.writes_of_not_touches {f : Field} {Q : Int → Prop} {kind : Kind}
    (h : kind.touches f = false) : kind.Writes f Q := by
  cases kind <;> simp_all [touches, Writes]

/-- A member that a single option writes into. -/
theorem writes_of_name {f : Field} {Q : Int → Prop} (name : String) {kind₀ : Kind}
    (hname : ∀ e ∈ earlyOptions ++ lateOptions, e.2.touches f = true → e.1 = name)
    (hkind₀ : kindOf name = some kind₀) (hwrites : kind₀.Writes f Q) (arg : String) (kind : Kind)
    (hkind : kindOf arg = some kind) : kind.Writes f Q := by
  by_cases htouches : kind.touches f = true
  · have harg : arg = name := hname _ (kindOf_mem hkind) htouches
    rw [harg, hkind₀] at hkind
    cases hkind
    exact hwrites
  · exact Kind.writes_of_not_touches (Bool.eq_false_iff.mpr htouches)

namespace Options

variable {o o' : Options} {f g : Field} {Q : Int → Prop}

@[simp] theorem set_value_self (v : Int) : (o.set f v).value f = v := Function.update_self _ _ _

theorem set_value_of_ne (h : f ≠ g) (v : Int) : (o.set g v).value f = o.value f :=
  Function.update_of_ne h _ _

theorem set_self : o.set f (o.value f) = o := by
  unfold Options.set
  rw [Function.update_eq_self]

theorem set_value {v : Int} (ho : Q (o.value f)) (hv : g = f → Q v) : Q ((o.set g v).value f) := by
  by_cases hfg : g = f
  · subst hfg
    rw [set_value_self]
    exact hv rfl
  · rwa [set_value_of_ne (Ne.symm hfg)]

end Options

section Writes

variable {f : Field} {Q : Int → Prop} {o o' : Options} {kind : Kind}

theorem Kind.Writes.flag (h : kind.Writes f Q) (ho : Q (o.value f)) (hset : kind.flag o = some o') :
    Q (o'.value f) := by
  cases kind <;> cases hset
  case kvalue => exact Options.set_value ho h
  case coarseGrainLock => exact ho

theorem Kind.Writes.store {v : String} (h : kind.Writes f Q) (ho : Q (o.value f))
    (hstored : kind.store o v = .ok o') : Q (o'.value f) := by
  have hskip {g : Field} (n : Int) (hne : f ≠ g) : Q ((o.set g n).value f) := by
    rwa [Options.set_value_of_ne hne]
  unfold Kind.store at hstored
  cases kind with
  | kvalue | coarseGrainLock =>
      cases hstored
      exact ho
  | ivalue g =>
      cases hstored
      exact Options.set_value ho fun heq => h heq _
  | diskfilename | filename | ipaddr =>
      cases hstored
      exact hskip _ h
  | logfile | memoryChannel | patternSelector =>
      cases hstored
      exact ho
  | checked g parse accepts message =>
      dsimp only at hstored
      split at hstored
      · next n hparse =>
          split at hstored
          · next haccepts =>
              cases hstored
              exact Options.set_value ho fun heq => h heq v n hparse haccepts
          · cases hstored
      · cases hstored
  | finalCheckThreads =>
      dsimp only at hstored
      split at hstored
      · split at hstored
        · cases hstored
          rw [Options.set_value_of_ne h.2]
          exact hskip _ h.1
        · cases hstored
      · cases hstored
  | fillPreset | fillDirection | invertRange | ddrFreq | ddrNode | dramMap =>
      dsimp only at hstored
      repeat' split at hstored
      all_goals cases hstored
      all_goals exact ho

/-- **What is written into a member** is there after the loop, or its first value. -/
theorem parseLoop_field (hwrites : ∀ arg kind, kindOf arg = some kind → kind.Writes f Q)
    (hf : f ≠ .errorInjection) {args : List String} (h : parseLoop o args = .ok o')
    (ho : Q (o.value f)) : Q (o'.value f) := by
  apply parseLoop_inv (fun o => Q (o.value f)) _ _ _ h ho
  · intro o arg ho
    unfold Options.injecting
    split
    · rwa [Options.set_value_of_ne hf]
    · exact ho
  · intro arg kind o o' hkind ho hset
    exact (hwrites arg kind hkind).flag ho hset
  · intro arg kind v o o' hkind ho hstored
    exact (hwrites arg kind hkind).store ho hstored

end Writes

/-! ## Accepted options -/

theorem parseIntFrom_range {least n : Int} {v : String} (h : parseIntFrom least v = some n) :
    least ≤ n ∧ n < 2 ^ 31 := by
  unfold parseIntFrom at h
  dsimp only at h
  split at h
  · cases h
  · next hrange =>
      cases h
      simp only [Bool.or_eq_true, decide_eq_true_eq, not_or] at hrange
      omega

/-- The range of an `int`. -/
def IsInt (n : Int) : Prop := -2 ^ 31 ≤ n ∧ n < 2 ^ 31

theorem isInt_bmod (n : Int) : IsInt (n.bmod (2 ^ 32)) := by
  have hlow := Int.le_bmod (x := n) (m := 2 ^ 32) (by decide)
  have hhigh := Int.bmod_lt (x := n) (m := 2 ^ 32) (by decide)
  unfold IsInt
  omega

/-- The range of a `time_t`. -/
def IsTime (n : Int) : Prop := -2 ^ 63 ≤ n ∧ n < 2 ^ 63

theorem isTime_bmod (n : Int) : IsTime (n.bmod (2 ^ 64)) := by
  have hlow := Int.le_bmod (x := n) (m := 2 ^ 64) (by decide)
  have hhigh := Int.bmod_lt (x := n) (m := 2 ^ 64) (by decide)
  unfold IsTime
  omega

/-- `x & (x - 1)` is zero for the powers of two alone. -/
theorem exists_two_pow_of_andPred {n : Int} (hn : IsInt n) (hpos : 0 < n) (h : andPred n = 0) :
    ∃ k, n = 2 ^ k := by
  obtain ⟨m, rfl⟩ := Int.eq_ofNat_of_zero_le (Int.le_of_lt hpos)
  have hlt : m < 2 ^ 32 := by
    have := hn.2
    omega
  have hpred : ((m : Int) - 1) = ((m - 1 : Nat) : Int) := by omega
  have hbits := congrArg BitVec.toNat h
  rw [andPred, hpred, BitVec.ofInt_natCast, BitVec.ofInt_natCast, BitVec.toNat_and,
    BitVec.toNat_ofNat, BitVec.toNat_ofNat, Nat.mod_eq_of_lt hlt, Nat.mod_eq_of_lt (by omega)] at hbits
  obtain ⟨k, rfl⟩ := (Nat.and_sub_one_eq_zero_iff_isPowerOfTwo (by omega)).mp hbits
  exact ⟨k, by push_cast; rfl⟩

/-- What the channel checks leave: at most two channels, of `2 ^ a` chips of `8 * 2 ^ b` bits, and
no hash for a single one. -/
structure Options.ChannelsOk (o : Options) : Prop where
  length : o.channels.length ≤ 2
  widths : o.channels ≠ [] → ∃ a b, o.value .channelWidth = 8 * 2 ^ (a + b) ∧
    ∀ c ∈ o.channels, c.length = 2 ^ a
  single : o.channels.length = 1 → o.value .channelHash = 0

theorem checkChannels_ok {o o' : Options} (hwidth : IsInt (o.value .channelWidth))
    (hnames : ∀ c ∈ o.channels, c ≠ []) (h : checkChannels o = .ok o') :
    o'.ChannelsOk ∧ ∀ f, f ≠ .channelHash → o'.value f = o.value f := by
  unfold checkChannels at h
  split at h
  · next hnone =>
      cases h
      refine ⟨⟨by simp [hnone], fun hne => absurd hnone hne, by simp [hnone]⟩, fun _ _ => rfl⟩
  · next first rest hchannels =>
      split at h
      · cases h
      next hcount =>
      split at h
      · cases h
      next hsame =>
      split at h
      · cases h
      next hmodules =>
      split at h
      · cases h
      next hlow =>
      split at h
      · cases h
      next hchip =>
      rw [not_or, not_not] at hlow
      have hsize : ∀ c ∈ o.channels, c.length = first.length := by
        rw [hchannels]
        simpa using hsame
      have hpos : first.length ≠ 0 := by
        rw [Ne, List.length_eq_zero_iff]
        exact hnames first (hchannels ▸ List.mem_cons_self)
      obtain ⟨a, ha⟩ := (Nat.and_sub_one_eq_zero_iff_isPowerOfTwo hpos).mp (not_not.mp hmodules)
      obtain ⟨k, hk⟩ := exists_two_pow_of_andPred hwidth (by omega) hlow.2
      -- a chip has at least 8 bits, so the width has 3 factors more than the modules
      have hle : 8 * 2 ^ a ≤ 2 ^ k := by
        have := Nat.not_lt.mp hchip
        rw [hk, ha, Nat.le_div_iff_mul_le (Nat.two_pow_pos a)] at this
        exact_mod_cast this
      have hak : a + 3 ≤ k := by
        apply (Nat.pow_le_pow_iff_right (a := 2) (by decide)).mp
        rw [Nat.pow_add]
        omega
      have hok : ∀ hash, (rest = [] → hash = 0) → (o.set .channelHash hash).ChannelsOk := by
        intro hash hhash
        constructor
        · change o.channels.length ≤ 2
          rw [hchannels, List.length_cons]
          omega
        · intro _
          refine ⟨a, k - 3 - a, ?_, ?_⟩
          · rw [Options.set_value_of_ne (by decide), hk, Nat.add_sub_cancel' (by omega)]
            have : (2 : Int) ^ k = 2 ^ (3 + (k - 3)) := by rw [Nat.add_sub_cancel' (by omega)]
            rw [this, pow_add]
            rfl
          · intro c hc
            rw [hsize c hc, ha]
        · intro hone
          change o.channels.length = 1 at hone
          rw [Options.set_value_self]
          apply hhash
          rw [hchannels, List.length_cons] at hone
          exact List.length_eq_zero_iff.mp (by omega)
      cases h
      by_cases hrest : rest = []
      · rw [if_pos hrest]
        exact ⟨hok 0 fun _ => rfl, fun f hf => Options.set_value_of_ne hf 0⟩
      · rw [if_neg hrest]
        have hself := hok (o.value .channelHash) fun hnil => absurd hnil hrest
        rw [Options.set_self] at hself
        exact ⟨hself, fun _ _ => rfl⟩

/-- **Options that have been accepted.** -/
structure Options.Accepted (o : Options) : Prop where
  pageLength : ∃ k, o.value .pageLength = 1024 * 2 ^ k
  fillYieldBytes : o.value .fillYieldBytes ≤ o.value .pageLength
  printDelay : 0 < o.value .printDelay
  pauseDelay : 0 < o.value .pauseDelay
  dramStepSeconds : 0 < o.value .dramStepSeconds
  pauseDuration : IsTime (o.value .pauseDuration)
  channelWidth : IsInt (o.value .channelWidth)
  channels : o.ChannelsOk

theorem checkOptions_ok {o o' : Options} (hlength : IsInt (o.value .pageLength))
    (hwidth : IsInt (o.value .channelWidth)) (hnames : ∀ c ∈ o.channels, c ≠ [])
    (hstep : 0 < o.value .dramStepSeconds) (hpause : IsTime (o.value .pauseDuration))
    (h : checkOptions o = .ok o') : o'.Accepted := by
  unfold checkOptions at h
  dsimp only at h
  split at h
  · cases h
  next hpage =>
  split at h
  · cases h
  next hyield =>
  split at h
  · cases h
  next hdelays =>
  simp only [not_or, not_not] at hpage hdelays
  have hdisk {o : Options} (f : Field) (hf : f ≠ .diskPages) : (setDiskPages o).value f = o.value f := by
    unfold setDiskPages
    split
    · exact Options.set_value_of_ne hf _
    · rfl
  have hdiskChannels {o : Options} : (setDiskPages o).channels = o.channels := by
    unfold setDiskPages
    split <;> rfl
  obtain ⟨hchannels, hvalue⟩ := checkChannels_ok (by rwa [hdisk _ (by decide)])
    (by rwa [hdiskChannels]) h
  have hsame (f : Field) (hf : f ≠ .channelHash) (hf' : f ≠ .diskPages) : o'.value f = o.value f :=
    (hvalue f hf).trans (hdisk f hf')
  constructor
  · obtain ⟨k, hk⟩ := exists_two_pow_of_andPred hlength (by omega) hpage.2.1
    have hten : 10 ≤ k := by
      by_contra hlt
      have : (2 : Int) ^ k ≤ 2 ^ 9 := pow_le_pow_right₀ (by decide) (by omega)
      omega
    refine ⟨k - 10, ?_⟩
    rw [hsame _ (by decide) (by decide), hk, ← Nat.add_sub_cancel' hten, pow_add,
      Nat.add_sub_cancel_left]
    rfl
  · rw [hsame _ (by decide) (by decide), hsame _ (by decide) (by decide)]
    omega
  · rw [hsame _ (by decide) (by decide)]
    omega
  · rw [hsame _ (by decide) (by decide)]
    omega
  · rwa [hsame _ (by decide) (by decide)]
  · rwa [hsame _ (by decide) (by decide)]
  · rwa [hsame _ (by decide) (by decide)]
  · exact hchannels

/-- Every `--memory_channel` has a name. -/
theorem parseLoop_channels {args : List String} {o o' : Options} (h : parseLoop o args = .ok o')
    (ho : ∀ c ∈ o.channels, c ≠ []) : ∀ c ∈ o'.channels, c ≠ [] := by
  apply parseLoop_inv (fun o => ∀ c ∈ o.channels, c ≠ []) _ _ _ h ho
  · intro o arg ho
    unfold Options.injecting
    split <;> exact ho
  · intro arg kind o o' _ ho hset
    cases kind <;> cases hset <;> exact ho
  · intro arg kind v o o' _ ho hstored
    unfold Kind.store at hstored
    cases kind
    case memoryChannel =>
      cases hstored
      intro c hc
      rcases List.mem_append.mp hc with hc | hc
      · exact ho c hc
      · rw [List.mem_singleton.mp hc]
        exact List.splitOn_ne_nil ',' v.toList
    all_goals
      dsimp only at hstored
      repeat' split at hstored
      all_goals cases hstored
      all_goals exact ho

theorem parseArgs_ok {args : List String} {o : Options} (h : parseArgs args = .ok o) :
    ∃ o₁, parseLoop .initial args = .ok o₁ ∧ checkOptions o₁ = .ok o := by
  unfold parseArgs at h
  cases hloop : parseLoop .initial args with
  | error e =>
      rw [hloop] at h
      cases h
  | ok o₁ =>
      rw [hloop] at h
      exact ⟨o₁, rfl, h⟩

/-- **`ParseArgs`** gives accepted options or none. -/
theorem parseArgs_accepted {args : List String} {o : Options} (h : parseArgs args = .ok o) :
    o.Accepted := by
  obtain ⟨o₁, hloop, hcheck⟩ := parseArgs_ok h
  apply checkOptions_ok _ _ _ _ _ hcheck
  · apply parseLoop_field (writes_of_name "-p" (by decide) rfl _) (by decide) hloop
    · exact ⟨by decide, by decide⟩
    · exact fun _ n => isInt_bmod n
  · apply parseLoop_field (writes_of_name "--channel_width" (by decide) rfl _) (by decide) hloop
    · exact ⟨by decide, by decide⟩
    · exact fun _ n => isInt_bmod n
  · apply parseLoop_channels hloop
    intro c hc
    cases hc
  · apply parseLoop_field (writes_of_name "--ddr-step" (by decide) rfl _) (by decide) hloop
    · exact (by decide : (0 : Int) < 3)
    · exact fun _ v n hparse _ => (parseIntFrom_range hparse).1
  · apply parseLoop_field (writes_of_name "--pause_duration" (by decide) rfl _) (by decide) hloop
    · exact ⟨by decide, by decide⟩
    · exact fun _ n => isTime_bmod n

end StressAppTest.Control
