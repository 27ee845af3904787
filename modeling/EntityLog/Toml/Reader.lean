import EntityLog.Toml.Grammar
/-!
# Reading TOML documents

A document is a sequence of lines: blank lines, comments, key-value pairs and table headers.
Key-value pairs fill the table of the last header (the root before any header); a header first
puts the finished table into the document and then starts its own, so that a table defined twice
is reported at the second header. A failure is reported at the byte where reading stopped; a
key that cannot be placed is reported at the start of its line.
-/

namespace EntityLog.Toml

open Parse

/-- The state of reading a document: the document so far, the table being filled, the path of
its header, and whether that header names an array of tables. -/
structure Assembly where
  root : Node
  current : Node
  path : List Key
  asArray : Bool

/-- Nothing read yet: the root table is being filled. -/
def Assembly.empty : Assembly :=
  ⟨Node.emptyTable false false false (some ⟨0, 0⟩),
    Node.emptyTable false false false (some ⟨0, 0⟩), [], false⟩

/-- The document with the table being filled put in place. -/
def Assembly.finish (a : Assembly) : Except KeyFault Node :=
  finishTable a.root a.path a.current a.asArray

/-- Starts the table of a header. -/
def Assembly.header (a : Assembly) (path : List Key) (asArray : Bool) (span : Span) :
    Except KeyFault Assembly := do
  let root ← a.finish
  let (root, current) ←
    if asArray then startArrayTable root path span else startTable root path span
  return ⟨root, current, path, asArray⟩

/-- Adds a key-value pair to the table being filled. -/
def Assembly.keyValue (a : Assembly) (keys : List Key) (v : Node) : Except KeyFault Assembly :=
  match splitLast keys with
  | (path, some key) => do
    let current ← addKeyValue ⟨true, false⟩ a.current (some (a.path.map (·.name))) path key v
    return { a with current := current }
  | (_, none) => pure a

/-- Applies a step of assembly, refusing at `start` when a key cannot be placed. -/
def placeAt (start : Nat) (r : Except KeyFault Assembly) : Parse Assembly :=
  match r with
  | .ok a => pure a
  | .error f => refuse start (some f.text)

/-- One line of a document. -/
def documentLine (a : Assembly) : Parse Assembly := do
  let start ← get
  match ← peek with
  | none => backtrack
  | some 35 => cut (do comment; lineEnding); pure a
  | some 91 =>
    cut (label "table header" do
      let (keys, asArray, span) ← header
      placeAt start (a.header keys asArray span))
  | some 10 | some 13 => newline; pure a
  | some _ =>
    cut do
      let (keys, v) ← keyValueLine
      placeAt start (a.keyValue keys v)

/-- Lines, each followed by blanks, until one cannot start. -/
def documentLines (a : Assembly) : (fuel : Nat) → Parse Assembly
  | 0 => pure a
  | fuel + 1 => do
    match ← attempt (documentLine a) with
    | none => pure a
    | some a' => ws; documentLines a' fuel

/-- The span an error at byte `pos` points at: the byte there, or nothing at the end. -/
def spanAt (size pos : Nat) : Span := if pos = size then ⟨pos, pos⟩ else ⟨pos, pos + 1⟩

/-- Reads a TOML document. -/
def readDocument (source : String) : Except TomlError Node :=
  let bytes := source.toUTF8
  let whole : Parse Assembly := do
    let _ ← attempt (text [0xEF, 0xBB, 0xBF])
    ws
    let a ← documentLines Assembly.empty (← fuel)
    eof
    pure a
  match (whole.run bytes).run 0 with
  | .error f => .error ⟨f.message, some (spanAt bytes.size f.pos)⟩
  | .ok (a, _) =>
    match a.finish with
    | .ok n => .ok n
    | .error k => .error ⟨k.text, none⟩

end EntityLog.Toml
