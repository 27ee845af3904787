import EntityLog.Script.Files
import EntityLog.Daemon.Run
/-!
# Runs of the daemon in scripts

A daemon script runs the daemon once in the working directory, with its arguments (where
`{CONFIG}` stands for `pipeline.toml`), a configuration file written beforehand if one is given,
and its standard input as text or as hexadecimal bytes. A stop signal arrives once the daemon is
ready and before any input, so it ends the reading just as an empty input does.

The answer gives the exit code and both outputs, the lines of the output file without the parts
that depend on the clock and the host, whether the log holds a start failure, and every name
in the working directory.
-/

namespace EntityLog.Script

open EntityLog.Json EntityLog.Files

/-- The name standing for the configuration file in arguments. -/
def configPlaceholder : String := "\x7bCONFIG\x7d"

/-- The bytes spelled by hexadecimal digit pairs; `none` for an odd count or a bad digit. -/
def hexBytes (text : String) : Option ByteArray :=
  let rec go : List Char → Option (List UInt8)
    | [] => some []
    | a :: b :: rest => do
      let hi ← Record.hexDigitValue a
      let lo ← Record.hexDigitValue b
      return (hi * 16 + lo).toUInt8 :: (← go rest)
    | [_] => none
  (go text.toList).map fun bs => ByteArray.mk bs.toArray

/-- An output line without its id, time and context, marked with whether it had a context; a
line that is not JSON is kept as text. -/
def outputLineV (line : String) : Value :=
  match parseValue line.toUTF8 with
  | .ok (.object ms) =>
    let hasContext := match ms.find? (·.1 == "context") with
      | some (_, .null) | none => false
      | some _ => true
    obj ((ms.filter fun (k, _) => k != "id" && k != "created_at" && k != "context") ++
      [("has_context", boolV hasContext)])
  | .ok v => v
  | .error _ => str line

/-- The lines of a file, if it is there. -/
def fileLines (d : Disk) (p : Path) : List String :=
  match d.readText p with
  | .ok text => (text.splitOn "\n").filter (!·.isEmpty)
  | .error _ => []

/-- Every name in the current directory, sorted, directories marked by a final `/`. -/
def namesV (d : Disk) : Value :=
  let entries := (d.listBelow ".").map fun (name, node) =>
    match node with
    | .dir => (name ++ "/", Value.null)
    | .file _ => (name, Value.null)
  arr ((entries.foldl (fun acc e => insertEntry e acc) []).map fun (n, v) => arr [str n, v])

/-- Runs a daemon script. -/
def daemonScript (v : Value) : Outcome Value := do
  let args ← (← v.arr? "args").mapM fun a => match a with
    | .string s => .ok (s.replace configPlaceholder "pipeline.toml")
    | _ => bad "bad arg"
  let input ← match v.get? "stdin_hex", v.get? "stdin" with
    | some (.string h), _ => match hexBytes h with
      | some bytes => pure bytes
      | none => bad "bad hex"
    | _, some (.string s) => pure s.toUTF8
    | _, _ => pure ByteArray.empty
  let disk := { workDisk with cwd := [workDir] }
  let disk ← match v.get? "config_toml" with
    | some (.string t) => match disk.writeFile "pipeline.toml" t.toUTF8 with
      | .ok d => pure d
      | .error e => .error ⟨"DriverIo", e.text⟩
    | _ => pure disk
  let (exit, m) := (Daemon.run args input).run { disk := disk }
  let (output, log) := match Daemon.Args.parse args with
    | .ok a => (a.output, a.log)
    | .error _ => (({} : Daemon.Args).output, ({} : Daemon.Args).log)
  let startFailed := (fileLines m.disk log).any fun l => l.startsWith "ERROR failed to start ecld"
  return obj [("code", nat exit.code), ("stdout", str exit.stdout), ("stderr", str exit.stderr),
    ("output", arr ((fileLines m.disk output).map outputLineV)),
    ("log_has_startup_error", boolV startFailed), ("files", namesV m.disk)]

end EntityLog.Script
