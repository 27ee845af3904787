import EntityLog.Json.Value
import EntityLog.Json.Quoted
import EntityLog.Decimal.Layout
/-!
# Writing JSON values

Compact JSON text: no blanks, members in key order, strings quoted as in `Json.Quoted`, integers
exactly and doubles with the fewest digits that read back.
-/

namespace EntityLog.Json

open EntityLog.Decimal

/-- Doubles are written positionally when the point falls after at most sixteen digits and before
at most five leading zeros of the fraction, with `.0` after a whole number; otherwise in
scientific notation with an explicit `+` on a non-negative exponent, as in `1e+20` and `1e-7`. -/
def numberLayout : Layout :=
  { lowest := some (-5), highest := some 16, plusMark := "+", pointZero := true }

/-- The text of a double as a JSON number; a double that is not finite is written as `null`. -/
def doubleText (f : Float) : String :=
  match (Binary.ofFloat f).shortest with
  | some (negative, d) => numberLayout.render negative d
  | none => "null"

/-- The text of a number. -/
def Number.render : Number → String
  | .unsigned n => natText n
  | .negative n => "-" ++ natText n.natAbs
  | .double f => doubleText f

mutual
/-- Compact JSON text of a value. -/
def Value.render : Value → String
  | .null => "null"
  | .bool b => if b then "true" else "false"
  | .number n => n.render
  | .string s => quote s
  | .array items => "[" ++ renderItems items ++ "]"
  | .object members => "\x7b" ++ renderMembers members ++ "\x7d"

/-- Array items separated by commas. -/
def renderItems : List Value → String
  | [] => ""
  | [v] => v.render
  | v :: rest => v.render ++ "," ++ renderItems rest

/-- Object members separated by commas. -/
def renderMembers : List (String × Value) → String
  | [] => ""
  | [(k, v)] => quote k ++ ":" ++ v.render
  | (k, v) :: rest => quote k ++ ":" ++ v.render ++ "," ++ renderMembers rest
end

end EntityLog.Json
