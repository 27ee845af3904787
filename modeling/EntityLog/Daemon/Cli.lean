import EntityLog.Config.TomlForm
import EntityLog.Text.Similarity
/-!
# The daemon's command line

The daemon takes long options with one value each, written `--name value` or `--name=value`,
and the switches `-h`/`--help` and `-V`/`--version`. Each option may be given once. Arguments
are read left to right; a value that follows its option on its own is checked when the next
option (or the end) is reached, so an error about it comes before errors found later.

A word starting with a dash is never taken as a value, so `--workers -1` is an unknown `-1`. An
unknown long option gets the most similar known name as a tip, and the usage line of such an
error lists the options given so far.

The settings are then resolved: the configuration file if one is named, then the options that
override it, then validation.
-/

namespace EntityLog.Daemon

open EntityLog.Config
open EntityLog.Time
open EntityLog.Files

/-- What an option's value is read as. -/
inductive ValueKind where
  | path
  | size
  | span

/-- An option that takes a value: its long name, the placeholder of its value, its help line,
the default shown in help, and the kind of its value. -/
structure Flag where
  long : String
  placeholder : String
  help : String
  shownDefault : Option String := none
  kind : ValueKind

/-- The option as messages write it: `--batch-size <BATCH_SIZE>`. -/
def Flag.text (f : Flag) : String := "--" ++ f.long ++ " <" ++ f.placeholder ++ ">"

/-- The options of the daemon, in the order of its help text. -/
def flags : List Flag := [
  ⟨"config", "CONFIG", "Pipeline config file (TOML)", none, .path⟩,
  ⟨"wal", "WAL", "Write-ahead log path", none, .path⟩,
  ⟨"output", "OUTPUT", "File receiving persisted batches as JSON lines",
    some "logs/entity-changes.jsonl", .path⟩,
  ⟨"log", "LOG", "Daemon log file", some "logs/ecld.log", .path⟩,
  ⟨"batch-size", "BATCH_SIZE", "Records per batch", none, .size⟩,
  ⟨"workers", "WORKERS", "Batch worker threads", none, .size⟩,
  ⟨"queue-capacity", "QUEUE_CAPACITY", "Ingestion queue capacity", none, .size⟩,
  ⟨"flush-interval", "FLUSH_INTERVAL", "Timed flush interval (e.g. `5s`, `250ms`)", none, .span⟩]

/-- The program name. -/
def programName : String := "ecld"

/-- The program version. -/
def programVersion : String := "0.1.0"

/-- What the program does, as help shows it. -/
def about : String :=
  "Reads entity changes from stdin, logs them durably and persists them in batches"

/-- The help text: every option with its help on the next line. -/
def helpText : String :=
  let entry (head help : String) : String := head ++ "\n          " ++ help ++ "\n"
  about ++ "\n\nUsage: " ++ programName ++ " [OPTIONS]\n\nOptions:\n" ++
    String.join (flags.map fun f =>
      entry ("      " ++ f.text)
        (f.help ++ (match f.shownDefault with
          | some d => " [default: " ++ d ++ "]"
          | none => ""))) ++
    entry "  -h, --help" "Print help" ++ entry "  -V, --version" "Print version"

/-- All long names, the switches last, for tips. -/
def longNames : List String := flags.map (·.long) ++ ["help", "version"]

/-- A value given to an option. -/
inductive Given where
  | path (p : Path)
  | size (n : Nat)
  | span (d : Span)

/-- Why a value was refused: it was empty, or it did not read. -/
inductive ValueFault where
  | empty
  | invalid (reason : String)

/-- The largest size value. -/
def sizeLimit : Nat := Nat.pow 2 64 - 1

/-- Decimal digits accumulated into a size, refusing a non-digit or a value past the limit, in
the order they come. -/
def sizeDigits : List Char → Nat → Except String Nat
  | [], acc => .ok acc
  | c :: rest, acc =>
    if c.isDigit then
      let v := acc * 10 + (c.toNat - 48)
      if v > sizeLimit then .error "number too large to fit in target type" else sizeDigits rest v
    else .error "invalid digit found in string"

/-- Reads a size: decimal digits after an optional plus sign. -/
def readSize (s : String) : Except String Nat :=
  match s.toList with
  | [] => .error "cannot parse integer from empty string"
  | ['+'] | ['-'] => .error "invalid digit found in string"
  | '+' :: rest => sizeDigits rest 0
  | cs => sizeDigits cs 0

/-- Reads a value of a kind. A path may not be empty. -/
def ValueKind.read : ValueKind → String → Except ValueFault Given
  | .path, s => if s.isEmpty then .error .empty else .ok (.path s)
  | .size, s => (readSize s).map Given.size |>.mapError .invalid
  | .span, s => (Span.parse s).map Given.span |>.mapError fun e => .invalid e.text

/-- Why the command line was not accepted; help and version requests end reading too. -/
inductive CliFault where
  | help
  | version
  /-- An unknown argument, a tip, and the options for the usage line. -/
  | unknownArgument (arg : String) (tip : Option String) (usage : List String)
  | missingValue (flag : String)
  | badValue (value flag reason : String)
  | repeated (flag : String)
  | unexpectedValue (value flag : String) (usage : List String)

/-- The kind of a fault, as a name. -/
def CliFault.kind : CliFault → String
  | .help => "DisplayHelp"
  | .version => "DisplayVersion"
  | .unknownArgument _ _ _ => "UnknownArgument"
  | .missingValue _ => "InvalidValue"
  | .badValue _ _ _ => "ValueValidation"
  | .repeated _ => "ArgumentConflict"
  | .unexpectedValue _ _ _ => "TooManyValues"

/-- The usage line for the options given (all options when none). -/
def usageLine (usage : List String) : String :=
  "Usage: " ++ programName ++ " " ++
    (if usage.isEmpty then "[OPTIONS]" else " ".intercalate usage)

/-- The closing hint of an error message. -/
def moreHelp : String := "\n\nFor more information, try '--help'.\n"

/-- The text of a fault. -/
def CliFault.message : CliFault → String
  | .help => helpText
  | .version => programName ++ " " ++ programVersion ++ "\n"
  | .unknownArgument arg tip usage =>
    "error: unexpected argument '" ++ arg ++ "' found\n\n" ++
      (match tip with
        | some t => "  tip: a similar argument exists: '" ++ t ++ "'\n\n"
        | none => "") ++
      usageLine usage ++ moreHelp
  | .missingValue flag => "error: a value is required for '" ++ flag ++ "' but none was supplied" ++
      moreHelp
  | .badValue value flag reason =>
    "error: invalid value '" ++ value ++ "' for '" ++ flag ++ "': " ++ reason ++ moreHelp
  | .repeated flag =>
    "error: the argument '" ++ flag ++ "' cannot be used multiple times\n\n" ++ usageLine [] ++
      moreHelp
  | .unexpectedValue value flag usage =>
    "error: unexpected value '" ++ value ++ "' for '" ++ flag ++ "' found; no more were expected\n\n" ++
      usageLine usage ++ moreHelp

/-- The options read so far, by long name in the order first given (a refused value is recorded
without one), and the option whose value is still to be checked. -/
structure Matched where
  given : List (String × Option Given) := []
  pending : Option (Flag × List String) := none

/-- How a long name shows in a usage line. -/
def usageText (long : String) : String :=
  match flags.find? (·.long == long) with
  | some f => f.text
  | none => "--" ++ long

/-- The usage line entries of the options given. -/
def Matched.usage (m : Matched) : List String := m.given.map fun (l, _) => usageText l

/-- Records the values of an option: it needs one value, may not have been given before, and
its value must read. The record is updated even when refused, as later messages depend on it. -/
def Matched.settle (m : Matched) (f : Flag) (values : List String) : Matched × Option CliFault :=
  match values with
  | [] => (m, some (.missingValue f.text))
  | v :: _ =>
    if m.given.any (·.1 == f.long) then
      ({ m with given := m.given.filter (·.1 != f.long) }, some (.repeated f.text))
    else
      match f.kind.read v with
      | .ok g => ({ m with given := m.given ++ [(f.long, some g)] }, none)
      | .error .empty => ({ m with given := m.given ++ [(f.long, none)] }, some (.missingValue f.text))
      | .error (.invalid r) =>
        ({ m with given := m.given ++ [(f.long, none)] }, some (.badValue v f.text r))

/-- Checks the option still waiting. -/
def Matched.resolve (m : Matched) : Matched × Option CliFault :=
  match m.pending with
  | none => (m, none)
  | some (f, vs) => Matched.settle { m with pending := none } f vs

/-- Fails with a fault, or goes on. -/
def orFail {α : Type} (fault : Option CliFault) (next : Unit → Except CliFault α) :
    Except CliFault α :=
  match fault with
  | some e => .error e
  | none => next ()

/-- The fault for an unknown long option, with a tip; the tip joins the usage line. -/
def unknownLong (m : Matched) (name : String) : CliFault :=
  match Text.closestName name longNames with
  | some s =>
    let usage := if m.given.any (·.1 == s) then m.usage else m.usage ++ [usageText s]
    .unknownArgument ("--" ++ name) (some ("--" ++ s)) usage
  | none => .unknownArgument ("--" ++ name) none m.usage

/-- Splits a long option at its first `=`. -/
def splitAttached (body : String) : String × Option String :=
  match body.splitOn "=" with
  | [name] => (name, none)
  | name :: rest => (name, some ("=".intercalate rest))
  | [] => (body, none)

/-- Reads the arguments. `awaiting` is the option whose value may come next; after `--` every
argument is a plain word, and there are no plain arguments. -/
def readArguments (m : Matched) (awaiting : Option Flag) (trailing : Bool) :
    List String → Except CliFault Matched
  | [] => let (m, e) := m.resolve; orFail e fun _ => .ok m
  | t :: rest =>
    if trailing then .error (.unknownArgument t none [])
    else if t == "--" then readArguments m awaiting true rest
    else if t.startsWith "--" then
      let (name, attached) := splitAttached (t.drop 2).toString
      match flags.find? (·.long == name) with
      | some f =>
        match attached with
        | some v =>
          let (m, e) := m.resolve
          orFail e fun _ =>
            let (m, e) := m.settle f [v]
            orFail e fun _ => readArguments m none false rest
        | none =>
          let (m, e) := m.resolve
          orFail e fun _ => readArguments { m with pending := some (f, []) } (some f) false rest
      | none =>
        if name == "help" || name == "version" then
          match attached with
          | some v => .error (.unexpectedValue v ("--" ++ name) (m.usage ++ ["--" ++ name]))
          | none =>
            let (_, e) := m.resolve
            orFail e fun _ => .error (if name == "help" then .help else .version)
        else .error (unknownLong m.resolve.1 name)
    else if t.startsWith "-" && t != "-" then
      match t.toList.drop 1 with
      | 'h' :: _ => let (_, e) := m.resolve; orFail e fun _ => .error .help
      | 'V' :: _ => let (_, e) := m.resolve; orFail e fun _ => .error .version
      | c :: _ => .error (.unknownArgument ("-" ++ String.singleton c) none [])
      | [] => .error (.unknownArgument t none [])
    else
      match awaiting, m.pending with
      | some _, some (f, vs) => readArguments { m with pending := some (f, vs ++ [t]) } none false rest
      | _, _ => .error (.unknownArgument t none [])

/-- What the command line says. -/
structure Args where
  config : Option Path := none
  wal : Option Path := none
  output : Path := "logs/entity-changes.jsonl"
  log : Path := "logs/ecld.log"
  batchSize : Option Nat := none
  workers : Option Nat := none
  queueCapacity : Option Nat := none
  flushInterval : Option Span := none

/-- Records one given value. -/
def Args.take (a : Args) : String × Option Given → Args
  | ("config", some (.path p)) => { a with config := some p }
  | ("wal", some (.path p)) => { a with wal := some p }
  | ("output", some (.path p)) => { a with output := p }
  | ("log", some (.path p)) => { a with log := p }
  | ("batch-size", some (.size n)) => { a with batchSize := some n }
  | ("workers", some (.size n)) => { a with workers := some n }
  | ("queue-capacity", some (.size n)) => { a with queueCapacity := some n }
  | ("flush-interval", some (.span d)) => { a with flushInterval := some d }
  | _ => a

/-- Reads the arguments after the program name. -/
def Args.parse (arguments : List String) : Except CliFault Args := do
  let m ← readArguments {} none false arguments
  return m.given.foldl Args.take {}

/-- Everything the daemon needs once its arguments are read. -/
structure Settings where
  pipeline : PipelineConfig
  output : Path
  log : Path

/-- The options applied over a configuration. -/
def Args.override (a : Args) (c : PipelineConfig) : PipelineConfig :=
  { c with
    walPath := a.wal.getD c.walPath
    batchSize := a.batchSize.getD c.batchSize
    workerThreads := a.workers.getD c.workerThreads
    queueCapacity := a.queueCapacity.getD c.queueCapacity
    flushInterval := a.flushInterval.getD c.flushInterval }

/-- Resolves the settings: the configuration file read with `read` (which gives the text or the
reason it could not be read) and validated, the options applied, and the result validated. -/
def Args.resolve (read : Path → Except String String) (a : Args) : Except ConfigError Settings := do
  let base ← match a.config with
    | some p =>
      match read p with
      | .ok text => PipelineConfig.ofToml text
      | .error reason => .error (.io p reason)
    | none => pure {}
  let pipeline := a.override base
  pipeline.validate
  return ⟨pipeline, a.output, a.log⟩

end EntityLog.Daemon
