import EntityLog.Json.Reader
import EntityLog.Json.Print
import EntityLog.Text.Mismatch
/-!
# Typed decoding of JSON

Decoders read a value of a given type straight from the text. A decoder that rejects a token it
has read (a string that is no valid UUID, a number out of range) raises a message without a
place, which is then placed right after the token. Structs and maps run their closing step
(blanks and the closing bracket) whatever the outcome of their members, so a rejection found
inside them is placed after that closing step.

A decoder also runs in tree mode, used when the input is an already parsed value printed back as
canonical text: there an enum may not be written as anything but a string or a one-member
object, and the caller drops all places.
-/

namespace EntityLog.Json

open EntityLog.Text
open Read

/-- Where a decoder runs: how many arrays and objects may still be opened, and whether the input
is a value tree printed back. -/
structure Scope where
  depth : Nat
  tree : Bool := false

/-- The scope one bracket deeper. -/
def Scope.inner (s : Scope) (depth : Nat) : Scope := { s with depth := depth }

/-- A reader of one value of type `α`. -/
abbrev Decoder (α : Type) := Scope → Read α

/-- What a value found in JSON looks like in a message. -/
def foundText (f : Found) : String := f.text doubleText "null"

/-- The kind of a number, as a message names it. -/
def Number.found : Number → Found
  | .unsigned n => .unsigned n
  | .negative n => .signed n
  | .double f => .float f

/-- The kind of a value, as a message names it. -/
def Value.found : Value → Found
  | .null => .unit
  | .bool b => .bool b
  | .number n => n.found
  | .string s => .str s
  | .array _ => .seq
  | .object _ => .map

/-- Reads the token at the cursor to say what it is: a literal, number or string is consumed, a
bracket is not. A malformed token fails with its own error. -/
def foundHere : Read Found := do
  match ← skipBlanks with
  | some 110 => advance; expectIdent [117, 108, 108]; return .unit
  | some 116 => advance; expectIdent [114, 117, 101]; return .bool true
  | some 102 => advance; expectIdent [97, 108, 115, 101]; return .bool false
  | some 45 => advance; return (← readNumber false).found
  | some 34 => advance; return .str (← readStringBody)
  | some 91 => return .seq
  | some 123 => return .map
  | some b =>
    if 48 ≤ b && b ≤ 57 then return (← readNumber true).found
    else failAhead .expectedValue
  | none => failAhead .eofValue

/-- Fails with "invalid type" for the token at the cursor, placed after it. -/
def invalidTypeHere {α : Type} (expected : String) : Read α := do
  let f ← foundHere
  throw (← locate (Error.plain (invalidType (foundText f) expected)))

namespace Decoder

/-- A string, passed to `visit`. -/
def text {α : Type} (expected : String) (visit : String → Except String α) : Decoder α :=
  fun _ => located do
    match ← skipBlanks with
    | none => failAhead .eofValue
    | some 34 =>
      advance
      let s ← readStringBody
      ofExcept (visit s)
    | some _ => invalidTypeHere expected

/-- Any string. -/
def string : Decoder String := text "a string" .ok

/-- A number, passed to `visit`. -/
def number {α : Type} (expected : String) (visit : Number → Except String α) : Decoder α :=
  fun _ => located do
    match ← skipBlanks with
    | none => failAhead .eofValue
    | some 45 =>
      advance
      let n ← readNumber false
      ofExcept (visit n)
    | some b =>
      if 48 ≤ b && b ≤ 57 then
        let n ← readNumber true
        ofExcept (visit n)
      else invalidTypeHere expected

/-- An unsigned integer of at most `bound`, named `expected` in messages. -/
def unsigned (expected : String) (bound : Nat) : Decoder Nat :=
  number expected fun
    | .unsigned n =>
      if n ≤ bound then .ok n else .error (invalidValue (foundText (.unsigned n)) expected)
    | .negative n => .error (invalidValue (foundText (.signed n)) expected)
    | .double f => .error (invalidType (foundText (.float f)) expected)

/-- A boolean. -/
def bool : Decoder Bool := fun _ => located do
  match ← skipBlanks with
  | none => failAhead .eofValue
  | some 116 => advance; expectIdent [114, 117, 101]; return true
  | some 102 => advance; expectIdent [97, 108, 115, 101]; return false
  | some _ => invalidTypeHere "a boolean"

/-- `null` as nothing, anything else read with `d`. -/
def option {α : Type} (d : Decoder α) : Decoder (Option α) := fun s => do
  match ← skipBlanks with
  | some 110 => advance; expectIdent [117, 108, 108]; return none
  | _ => some <$> d s

/-- Any value. -/
def value : Decoder Value := fun s => readValue s.depth

/-- Any value, skipped. -/
def ignore : Decoder Unit := fun _ => do
  let fuel ← fuelLeft
  skipValue (2 * fuel)

/-- An array whose elements are read with `element`. -/
def seq {α : Type} (expected : String) (element : Decoder α) : Decoder (List α) :=
  fun s => located do
    match ← skipBlanks with
    | none => failAhead .eofValue
    | some 91 =>
      let d ← enter s.depth
      let fuel ← fuelLeft
      closedBy (readElements (element (s.inner d)) true fuel) closeArray
    | some _ => invalidTypeHere expected

/-- An object whose member values are read with `member`; the members come in text order. -/
def map {α : Type} (expected : String) (member : Decoder α) : Decoder (List (String × α)) :=
  fun s => located do
    match ← skipBlanks with
    | none => failAhead .eofValue
    | some 123 =>
      let d ← enter s.depth
      let fuel ← fuelLeft
      closedBy (readMembers (fun _ => member (s.inner d)) true fuel) closeObject
    | some _ => invalidTypeHere expected

/-- The name of a unit variant, looked up among `variants`. -/
def variantName {α : Type} (variants : List (String × α)) : Decoder α :=
  text "variant identifier" fun name =>
    match variants.find? (·.1 == name) with
    | some (_, v) => .ok v
    | none => .error (unknownVariant name (variants.map (·.1)))

/-- `null`, the payload of a unit variant. -/
def unit : Decoder Unit := fun _ => located do
  match ← skipBlanks with
  | none => failAhead .eofValue
  | some 110 => advance; expectIdent [117, 108, 108]
  | some _ => invalidTypeHere "unit"

/-- A unit variant of an enum: its name as a string, or an object of one member whose key is
the name and whose value is `null`. -/
def variant {α : Type} (variants : List (String × α)) : Decoder α := fun s => do
  match ← skipBlanks with
  | some 34 => variantName variants s
  | some 123 =>
    if s.tree then
      match ← value s with
      | .object [(name, body)] =>
        match variants.find? (·.1 == name) with
        | some (_, v) =>
          match body with
          | .null => return v
          | other => throw (Error.plain (invalidType (foundText other.found) "unit"))
        | none => throw (Error.plain (unknownVariant name (variants.map (·.1))))
      | _ => throw (Error.plain (invalidValue "map" "map with a single key"))
    else
      let d ← enter s.depth
      let v ← variantName variants (s.inner d)
      expectColon
      unit (s.inner d)
      match ← skipBlanks with
      | some 125 => advance; return v
      | some _ => failHere .expectedValue
      | none => failHere .eofObject
  | some _ =>
    if s.tree then
      let found := (← value s).found
      throw (Error.plain (invalidType (foundText found) "string or map"))
    else failAhead .expectedValue
  | none => failAhead .eofValue

end Decoder

/-- A field of a struct: its key, how its value is read into the state of the struct being read,
and whether it may be left out of an array form. -/
structure Field (σ : Type) where
  name : String
  read : σ → Decoder σ
  defaulted : Bool := false

/-- How a struct is read: its name in messages (`struct Record`), its fields in order, whether
unknown keys are refused, the state before any field, and the final step from the state (which
reports missing fields). -/
structure Shape (σ α : Type) where
  name : String
  fields : List (Field σ)
  denyUnknown : Bool := false
  start : σ
  finish : σ → Except String α

namespace Shape

/-- Reads object members into the state. A key seen twice is refused; an unknown key is refused
or its value skipped. -/
def readMembers {σ α : Type} (shape : Shape σ α) (s : Scope) :
    (seen : List String) → (st : σ) → (first : Bool) → (fuel : Nat) → Read σ
  | _, _, _, 0 => failAhead .eofObject
  | seen, st, first, fuel + 1 => do
    match ← nextKey first with
    | none => return st
    | some k =>
      match shape.fields.find? (·.name == k) with
      | some f =>
        if seen.contains k then throw (Error.plain (duplicateField k))
        expectColon
        let st' ← f.read st s
        shape.readMembers s (k :: seen) st' false fuel
      | none =>
        if shape.denyUnknown then throw (Error.plain (unknownField k (shape.fields.map (·.name))))
        expectColon
        Decoder.ignore s
        shape.readMembers s seen st false fuel

/-- Moves to the next array element: `false` at the closing bracket, which stays in place. -/
def nextElement (first : Bool) : Read Bool := do
  match ← skipBlanks with
  | some 93 => return false
  | some 44 =>
    if first then return true
    else
      advance
      match ← skipBlanks with
      | some 93 => failAhead .trailingComma
      | some _ => return true
      | none => failAhead .eofValue
  | some _ => if first then return true else failAhead .expectedListCommaOrEnd
  | none => failAhead .eofList

/-- The message for an array form that ends too early. -/
def lengthExpected {σ α : Type} (shape : Shape σ α) : String :=
  let n := shape.fields.length
  shape.name ++ " with " ++ toString n ++ (if n == 1 then " element" else " elements")

/-- Reads the array form: the fields in order, one element each. -/
def readElements {σ α : Type} (shape : Shape σ α) (s : Scope) :
    (index : Nat) → (rest : List (Field σ)) → (st : σ) → (first : Bool) → Read σ
  | _, [], st, _ => return st
  | index, f :: rest, st, first => do
    if ← nextElement first then
      let st' ← f.read st s
      shape.readElements s (index + 1) rest st' false
    else if f.defaulted then shape.readElements s (index + 1) rest st first
    else throw (Error.plain (invalidLength index shape.lengthExpected))

end Shape

/-- A struct, as an object or as an array of its fields in order. -/
def Decoder.struct {σ α : Type} (shape : Shape σ α) : Decoder α := fun s => located do
  match ← skipBlanks with
  | none => failAhead .eofValue
  | some 123 =>
    let d ← enter s.depth
    let fuel ← fuelLeft
    closedBy
      (do
        let st ← shape.readMembers (s.inner d) [] shape.start true fuel
        ofExcept (shape.finish st))
      closeObject
  | some 91 =>
    let d ← enter s.depth
    closedBy
      (do
        let st ← shape.readElements (s.inner d) 0 shape.fields shape.start true
        ofExcept (shape.finish st))
      closeArray
  | some _ => invalidTypeHere shape.name

/-- A value read with `d` and then converted; a refusal of the conversion has no place yet. -/
def Decoder.convert {α β : Type} (d : Decoder α) (f : α → Except String β) : Decoder β :=
  fun s => do ofExcept (f (← d s))

/-- A required field's value, or the message that it is missing. -/
def required {α : Type} (name : String) : Option α → Except String α
  | some a => .ok a
  | none => .error (missingField name)

/-- Decodes a whole text. -/
def decodeText {α : Type} (d : Decoder α) (input : ByteArray) : Except Error α :=
  (d { depth := depthLimit }).runText input

/-- Decodes an already parsed value: its canonical text is read in tree mode, and the errors carry
no place. -/
def decodeValue {α : Type} (d : Decoder α) (v : Value) : Except Error α :=
  match (d { depth := depthLimit, tree := true }).runText v.render.toUTF8 with
  | .ok a => .ok a
  | .error e => .error { e with place := none }

end EntityLog.Json
