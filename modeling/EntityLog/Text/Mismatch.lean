import EntityLog.Text.Literal
/-!
# Messages for values of the wrong shape

When a value does not fit the type it is read as, the message names what was found and what was
expected: `invalid type: string "x", expected usize`. The same wording serves JSON and TOML
input; only the text of a floating-point number differs between them, so it is a parameter.
-/

namespace EntityLog.Text

/-- What was found where something else was expected. -/
inductive Found where
  | bool (b : Bool)
  | unsigned (n : Nat)
  | signed (n : Int)
  | float (f : Float)
  | str (s : String)
  | unit
  | seq
  | map
  /-- A description given as it is. -/
  | other (description : String)

/-- The text of what was found; `floatText` writes a floating-point number and `unitText` names
the unit value. -/
def Found.text (floatText : Float → String) (unitText : String) : Found → String
  | .bool b => "boolean `" ++ (if b then "true" else "false") ++ "`"
  | .unsigned n => "integer `" ++ toString n ++ "`"
  | .signed n => "integer `" ++ toString n ++ "`"
  | .float f => "floating point `" ++ floatText f ++ "`"
  | .str s => "string " ++ literal s
  | .unit => unitText
  | .seq => "sequence"
  | .map => "map"
  | .other d => d

/-- Names between backticks: one, two joined by "or", or more after "one of". -/
def oneOf (names : List String) : String :=
  match names with
  | [a] => "`" ++ a ++ "`"
  | [a, b] => "`" ++ a ++ "` or `" ++ b ++ "`"
  | _ => "one of " ++ ", ".intercalate (names.map fun n => "`" ++ n ++ "`")

/-- A value of the wrong kind. -/
def invalidType (found : String) (expected : String) : String :=
  "invalid type: " ++ found ++ ", expected " ++ expected

/-- A value of the right kind that is out of range. -/
def invalidValue (found : String) (expected : String) : String :=
  "invalid value: " ++ found ++ ", expected " ++ expected

/-- A sequence of the wrong length. -/
def invalidLength (n : Nat) (expected : String) : String :=
  "invalid length " ++ toString n ++ ", expected " ++ expected

/-- A name that is not one of the variants. -/
def unknownVariant (name : String) (variants : List String) : String :=
  if variants.isEmpty then "unknown variant `" ++ name ++ "`, there are no variants"
  else "unknown variant `" ++ name ++ "`, expected " ++ oneOf variants

/-- A key that is not one of the fields. -/
def unknownField (name : String) (fields : List String) : String :=
  if fields.isEmpty then "unknown field `" ++ name ++ "`, there are no fields"
  else "unknown field `" ++ name ++ "`, expected " ++ oneOf fields

/-- A required field that is absent. -/
def missingField (name : String) : String := "missing field `" ++ name ++ "`"

/-- A field given twice. -/
def duplicateField (name : String) : String := "duplicate field `" ++ name ++ "`"

end EntityLog.Text
