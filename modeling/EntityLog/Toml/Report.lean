/-!
# TOML error reports

An error in a TOML text is reported with the line it is on: a heading with the line and column
(columns count characters), the line itself behind a gutter, carets under the offending span, and
the message. The column of a position past the end is one more than that of the last byte.
-/

namespace EntityLog.Toml

/-- A byte range of the input. -/
structure Span where
  start : Nat
  stop : Nat
  deriving Repr, BEq

/-- An error in a TOML text: the message and the span it points at, when there is one. -/
structure TomlError where
  message : String
  span : Option Span
  deriving Repr, BEq

/-- `n` spaces. -/
def spaces (n : Nat) : String := String.ofList (List.replicate n ' ')

/-- The start of the line holding byte `index`: just after the last line feed before it. -/
def lineStartBefore (bytes : List UInt8) (index : Nat) : Nat :=
  ((bytes.take index).zipIdx.filter (·.1 == 10)).getLast?.map (·.2 + 1) |>.getD 0

/-- The line and column (both from zero) of a byte offset. A position past the end takes the
column after the last byte. The column counts characters, or bytes when the offset falls inside
a character. -/
def translatePosition (input : ByteArray) (index : Nat) : Nat × Nat :=
  if input.size = 0 then (0, index)
  else
    let safe := min index (input.size - 1)
    let past := index - safe
    let bytes := input.toList
    let lineStart := lineStartBefore bytes safe
    let line := ((bytes.take lineStart).filter (· == 10)).length
    let column := match String.fromUTF8? (input.extract lineStart (safe + 1)) with
      | some s => s.length - 1
      | none => safe - lineStart
    (line, column + past)

/-- The report of an error found in `source`. -/
def TomlError.render (source : String) (e : TomlError) : String :=
  match e.span with
  | none => e.message ++ "\n"
  | some sp =>
    let (line, column) := translatePosition source.toUTF8 sp.start
    let lineNum := toString (line + 1)
    let gutter := spaces (lineNum.length + 1)
    let content := ((source.splitOn "\n").drop line).head?.getD ""
    let highlight := min (sp.stop - sp.start) (content.utf8ByteSize - column)
    "TOML parse error at line " ++ lineNum ++ ", column " ++ toString (column + 1) ++ "\n" ++
      gutter ++ "|\n" ++
      lineNum ++ " | " ++ content ++ "\n" ++
      gutter ++ "|" ++ spaces (column + 1) ++ "^" ++
        String.ofList (List.replicate (highlight - 1) '^') ++ "\n" ++
      e.message ++ "\n"

end EntityLog.Toml
