import EntityLog.Json.Value
import EntityLog.Decimal.Rounding
/-!
# Reading JSON text

A cursor over the bytes of a JSON text and the readers of its tokens: blanks, literals, strings
with their escapes, numbers and whole values. A failure names its fault and the line and column
where it was found; the column counts bytes since the last line feed. Errors raised while
interpreting a token, rather than scanning it, start without a place and get one later from the
cursor (`Read.locate`).

Strings are scanned by a pure function of the bytes and an index, which moves forward at every
step; the scanners of blanks and digits have the same shape. Numbers follow the classic fast
path: up to 64 bits of significand, digits beyond that dropped into the exponent, and the double
computed as the significand times or divided by a power of ten.
-/

namespace EntityLog.Json

/-- What went wrong while reading JSON. -/
inductive Fault where
  | eofValue | eofString | eofObject | eofList
  | expectedColon | expectedListCommaOrEnd | expectedObjectCommaOrEnd
  | expectedIdent | expectedValue
  | invalidEscape | invalidNumber | numberOutOfRange | invalidCodePoint
  | controlCharacter | keyMustBeString | loneLeadingSurrogate | unexpectedEndOfHexEscape
  | trailingComma | trailingCharacters | recursionLimit
  /-- A message from interpreting a value. -/
  | custom (message : String)
  deriving Repr, BEq

/-- The text of a fault. -/
def Fault.text : Fault → String
  | .eofValue => "EOF while parsing a value"
  | .eofString => "EOF while parsing a string"
  | .eofObject => "EOF while parsing an object"
  | .eofList => "EOF while parsing a list"
  | .expectedColon => "expected `:`"
  | .expectedListCommaOrEnd => "expected `,` or `]`"
  | .expectedObjectCommaOrEnd => "expected `,` or `\x7d`"
  | .expectedIdent => "expected ident"
  | .expectedValue => "expected value"
  | .invalidEscape => "invalid escape"
  | .invalidNumber => "invalid number"
  | .numberOutOfRange => "number out of range"
  | .invalidCodePoint => "invalid unicode code point"
  | .controlCharacter => "control character (\\u0000-\\u001F) found while parsing a string"
  | .keyMustBeString => "key must be a string"
  | .loneLeadingSurrogate => "lone leading surrogate in hex escape"
  | .unexpectedEndOfHexEscape => "unexpected end of hex escape"
  | .trailingComma => "trailing comma"
  | .trailingCharacters => "trailing characters"
  | .recursionLimit => "recursion limit exceeded"
  | .custom m => m

/-- A reading error: the fault and, once known, its line and column. -/
structure Error where
  fault : Fault
  place : Option (Nat × Nat) := none
  deriving Repr, BEq

/-- An error without a place. -/
def Error.plain (message : String) : Error := { fault := .custom message }

/-- The text of an error, with its place when it has one. -/
def Error.message (e : Error) : String :=
  match e.place with
  | some (line, column) =>
    e.fault.text ++ " at line " ++ toString line ++ " column " ++ toString column
  | none => e.fault.text

/-- The line and column of byte index `i`: lines count from one, columns are the bytes after the
last line feed before `i`. -/
def placeAt (input : ByteArray) (i : Nat) : Nat × Nat :=
  (input.extract 0 i).foldl
    (fun (lc : Nat × Nat) b => if b == 10 then (lc.1 + 1, 0) else (lc.1, lc.2 + 1)) (1, 0)

/-- The input and the index of the next byte to read. -/
structure Cursor where
  input : ByteArray
  index : Nat

/-- A reader: it may fail, and it moves the cursor also when it fails. -/
abbrev Read := ExceptT Error (StateM Cursor)

namespace Read

/-- Runs a reader and returns its outcome without failing. -/
def attempt {α : Type} (x : Read α) : Read (Except Error α) := ExceptT.lift x.run

/-- The next byte, if any, without moving. -/
def peek : Read (Option UInt8) := do
  let c ← get
  return c.input[c.index]?

/-- Moves past one byte. -/
def advance : Read Unit := modify fun c => { c with index := c.index + 1 }

/-- Moves to byte index `i`. -/
def jump (i : Nat) : Read Unit := modify fun c => { c with index := i }

/-- Fails with a fault placed at the cursor. -/
def failHere {α : Type} (f : Fault) : Read α := do
  let c ← get
  throw { fault := f, place := some (placeAt c.input c.index) }

/-- Fails with a fault placed one byte after the cursor (at most at the end). -/
def failAhead {α : Type} (f : Fault) : Read α := do
  let c ← get
  throw { fault := f, place := some (placeAt c.input (min c.input.size (c.index + 1))) }

/-- Gives an error without a place the place of the cursor. -/
def locate (e : Error) : Read Error := do
  match e.place with
  | some _ => return e
  | none =>
    let c ← get
    return { e with place := some (placeAt c.input c.index) }

/-- Runs a reader; an error of it without a place gets the place of the cursor at the failure. -/
def located {α : Type} (x : Read α) : Read α :=
  tryCatch x fun e => do throw (← locate e)

/-- Runs `body`, then `close` whatever the outcome of `body`; the first failure wins. -/
def closedBy {α : Type} (body : Read α) (close : Read Unit) : Read α := do
  let r ← attempt body
  let f ← attempt close
  match r, f with
  | .ok a, .ok () => return a
  | .error e, _ => throw e
  | .ok _, .error e => throw e

/-- Lifts the result of interpreting a token; its error has no place yet. -/
def ofExcept {α : Type} : Except String α → Read α
  | .ok a => pure a
  | .error m => throw (Error.plain m)

end Read

open Read

/-! ## Blanks and literals -/

/-- A blank between tokens: space, line feed, tab or carriage return. -/
def isJsonBlank (b : UInt8) : Bool := b == 32 || b == 10 || b == 9 || b == 13

/-- The index of the first byte at or after `i` that is not blank. -/
def blankEnd (input : ByteArray) (i : Nat) : Nat :=
  if h : i < input.size then
    if isJsonBlank input[i] then blankEnd input (i + 1) else i
  else i
termination_by input.size - i

/-- Skips blanks and returns the next byte, if any. -/
def skipBlanks : Read (Option UInt8) := do
  let c ← get
  jump (blankEnd c.input c.index)
  peek

/-- Reads the rest of a literal after its first byte. -/
def expectIdent : List UInt8 → Read Unit
  | [] => pure ()
  | b :: rest => do
    match ← peek with
    | none => failHere .eofValue
    | some x =>
      advance
      if x == b then expectIdent rest else failHere .expectedIdent

/-! ## Strings -/

/-- The value of a hexadecimal digit. -/
def hexValue (b : UInt8) : Option Nat :=
  if 48 ≤ b && b ≤ 57 then some (b.toNat - 48)
  else if 97 ≤ b && b ≤ 102 then some (b.toNat - 87)
  else if 65 ≤ b && b ≤ 70 then some (b.toNat - 55)
  else none

/-- Four hexadecimal digits at `j`: `none` when fewer than four bytes remain, `some none` when one
of them is not a hexadecimal digit. -/
def hexQuad (input : ByteArray) (j : Nat) : Option (Option Nat) :=
  if j + 4 ≤ input.size then
    some do
      let a ← input[j]?.bind hexValue
      let b ← input[j + 1]?.bind hexValue
      let c ← input[j + 2]?.bind hexValue
      let d ← input[j + 3]?.bind hexValue
      return ((a * 16 + b) * 16 + c) * 16 + d
  else none

/-- The byte that a one-letter escape stands for. -/
def shortEscape (b : UInt8) : Option UInt8 :=
  if b == 34 then some 34
  else if b == 92 then some 92
  else if b == 47 then some 47
  else if b == 98 then some 8
  else if b == 102 then some 12
  else if b == 110 then some 10
  else if b == 114 then some 13
  else if b == 116 then some 9
  else none

/-- The UTF-8 bytes of a code point. -/
def utf8Of (n : Nat) : ByteArray := (String.singleton (Char.ofNat n)).toUTF8

/-- Scans the body of a string from index `i` (after the opening quote), appending the decoded
bytes to `out`. It returns the bytes and the index after the closing quote, or the fault and the
index where it is reported. A `\u` escape of a high surrogate must be followed by one of a low
surrogate; the pair stands for one code point. -/
def scanString (input : ByteArray) (i : Nat) (out : ByteArray) :
    Except (Fault × Nat) (ByteArray × Nat) :=
  if h : i < input.size then
    let b := input[i]
    if b == 34 then .ok (out, i + 1)
    else if b == 92 then
      match input[i + 1]? with
      | none => .error (.eofString, input.size)
      | some e =>
        if e == 117 then
          match hexQuad input (i + 2) with
          | none => .error (.eofString, input.size)
          | some none => .error (.invalidEscape, i + 6)
          | some (some n) =>
            if 0xDC00 ≤ n ∧ n ≤ 0xDFFF then .error (.loneLeadingSurrogate, i + 6)
            else if n < 0xD800 ∨ 0xDBFF < n then scanString input (i + 6) (out ++ utf8Of n)
            else
              match input[i + 6]? with
              | none => .error (.eofString, input.size)
              | some b1 =>
                if b1 != 92 then .error (.unexpectedEndOfHexEscape, i + 7)
                else
                  match input[i + 7]? with
                  | none => .error (.eofString, input.size)
                  | some b2 =>
                    if b2 != 117 then .error (.unexpectedEndOfHexEscape, i + 8)
                    else
                      match hexQuad input (i + 8) with
                      | none => .error (.eofString, input.size)
                      | some none => .error (.invalidEscape, i + 12)
                      | some (some n2) =>
                        if n2 < 0xDC00 ∨ 0xDFFF < n2 then .error (.loneLeadingSurrogate, i + 12)
                        else
                          let code := (n - 0xD800) * 1024 + (n2 - 0xDC00) + 0x10000
                          scanString input (i + 12) (out ++ utf8Of code)
        else
          match shortEscape e with
          | some x => scanString input (i + 2) (out.push x)
          | none => .error (.invalidEscape, i + 2)
    else if b < 32 then .error (.controlCharacter, i + 1)
    else scanString input (i + 1) (out.push b)
  else .error (.eofString, input.size)
termination_by input.size - i

/-- Scans past the body of a string without decoding it: escapes are checked for their shape
only, and a control character is reported at its own index. -/
def skipString (input : ByteArray) (i : Nat) : Except (Fault × Nat) Nat :=
  if h : i < input.size then
    let b := input[i]
    if b == 34 then .ok (i + 1)
    else if b == 92 then
      match input[i + 1]? with
      | none => .error (.eofString, input.size)
      | some e =>
        if e == 117 then
          match hexQuad input (i + 2) with
          | none => .error (.eofString, input.size)
          | some none => .error (.invalidEscape, i + 6)
          | some (some _) => skipString input (i + 6)
        else
          match shortEscape e with
          | some _ => skipString input (i + 2)
          | none => .error (.invalidEscape, i + 2)
    else if b < 32 then .error (.controlCharacter, i)
    else skipString input (i + 1)
  else .error (.eofString, input.size)
termination_by input.size - i

/-- Reads a string body after its opening quote. Decoded bytes that are not UTF-8 (possible only
when the input itself is not) are an invalid code point. -/
def readStringBody : Read String := do
  let c ← get
  match scanString c.input c.index ByteArray.empty with
  | .error (f, j) => jump j; failHere f
  | .ok (bytes, j) =>
    jump j
    match String.fromUTF8? bytes with
    | some s => return s
    | none => failHere .invalidCodePoint

/-- Skips a string body after its opening quote. -/
def skipStringBody : Read Unit := do
  let c ← get
  match skipString c.input c.index with
  | .error (f, j) => jump j; failHere f
  | .ok j => jump j

/-! ## Numbers -/

/-- The largest 64-bit unsigned integer. -/
def u64Max : Nat := Nat.pow 2 64 - 1

/-- The largest 32-bit signed integer. -/
def i32Max : Nat := Nat.pow 2 31 - 1

/-- Whether the byte at `i` is a decimal digit. -/
def digitAt (input : ByteArray) (i : Nat) : Bool :=
  match input[i]? with
  | some b => 48 ≤ b && b ≤ 57
  | none => false

/-- Takes the digits from `i` onto `acc` while `acc * 10 + digit ≤ bound`; returns the value, the
index of the first byte not taken and the number of digits taken. -/
def takeDigits (input : ByteArray) (bound : Nat) (i acc taken : Nat) : Nat × Nat × Nat :=
  if h : i < input.size then
    let b := input[i]
    if 48 ≤ b && b ≤ 57 && acc * 10 + (b.toNat - 48) ≤ bound then
      takeDigits input bound (i + 1) (acc * 10 + (b.toNat - 48)) (taken + 1)
    else (acc, i, taken)
  else (acc, i, taken)
termination_by input.size - i

/-- The index after the run of digits starting at `i`. -/
def digitsEnd (input : ByteArray) (i : Nat) : Nat :=
  if h : i < input.size then
    let b := input[i]
    if 48 ≤ b && b ≤ 57 then digitsEnd input (i + 1) else i
  else i
termination_by input.size - i

/-- `10 ^ k` as the nearest double. -/
def powTen (k : Nat) : Float := (Decimal.Digits.toFloat ⟨1, k⟩)

/-- Scales `f` by `10 ^ exponent`: one multiplication or division when the power is at most
`10 ^ 308`, otherwise divisions by `10 ^ 308` first. An infinite product is out of range; so is a
non-zero value with a larger positive exponent. Three rounds suffice, since a 64-bit significand
divided twice by `10 ^ 308` is zero. -/
def scaleByTen (f : Float) (exponent : Int) : (rounds : Nat) → Option Float
  | 0 => some f
  | rounds + 1 =>
    if exponent.natAbs ≤ 308 then
      let p := powTen exponent.natAbs
      if 0 ≤ exponent then
        let g := f * p
        if g.isInf then none else some g
      else some (f / p)
    else if f == 0.0 then some f
    else if 0 ≤ exponent then none
    else scaleByTen (f / powTen 308) (exponent + 308) rounds

/-- The double `±significand · 10 ^ exponent`, or `none` when it is out of range. -/
def doubleOfParts (positive : Bool) (significand : Nat) (exponent : Int) : Option Float :=
  (scaleByTen significand.toUInt64.toFloat exponent 4).map fun f => if positive then f else -f

/-- Clamps to the 32-bit signed range. -/
def clampI32 (x : Int) : Int := max (-(Nat.pow 2 31)) (min (Nat.pow 2 31 - 1) x)

/-- Finishes a double, failing at the cursor when it is out of range. -/
def finishDouble (positive : Bool) (significand : Nat) (exponent : Int) : Read Float :=
  match doubleOfParts positive significand exponent with
  | some f => pure f
  | none => failHere .numberOutOfRange

/-- Reads an exponent (the cursor is on `e` or `E`). -/
def readExponent (positive : Bool) (significand : Nat) (start : Int) : Read Float := do
  advance
  let positiveExp ← match ← peek with
    | some 43 => do advance; pure true
    | some 45 => do advance; pure false
    | _ => pure true
  match ← peek with
  | none => failHere .eofValue
  | some b =>
    advance
    if !(48 ≤ b && b ≤ 57) then failHere .invalidNumber
    else
      let c ← get
      let (exp, j, _) := takeDigits c.input i32Max c.index (b.toNat - 48) 0
      jump j
      if digitAt c.input j then
        -- the exponent does not fit 32 bits; the digit that overflows it is consumed
        if significand != 0 && positiveExp then do
          jump (j + 1)
          failHere .numberOutOfRange
        else
          jump (digitsEnd c.input j)
          return if positive then 0.0 else -0.0
      else
        let final := clampI32 (if positiveExp then start + exp else start - exp)
        finishDouble positive significand final

/-- Skips the digits that no longer fit the significand, then reads an exponent if one follows. -/
def readOverflowTail (positive : Bool) (significand : Nat) (exponent : Int) : Read Float := do
  let c ← get
  jump (digitsEnd c.input c.index)
  match ← peek with
  | some 101 | some 69 => readExponent positive significand exponent
  | _ => finishDouble positive significand exponent

/-- Reads a fraction (the cursor is on the point). -/
def readFraction (positive : Bool) (significand : Nat) (before : Int) : Read Float := do
  advance
  let c ← get
  let (acc, j, taken) := takeDigits c.input u64Max c.index significand 0
  jump j
  if digitAt c.input j then readOverflowTail positive acc (before - taken)
  else if taken == 0 then
    match ← peek with
    | some _ => failAhead .invalidNumber
    | none => failAhead .eofValue
  else
    match ← peek with
    | some 101 | some 69 => readExponent positive acc (before - taken)
    | _ => finishDouble positive acc (before - taken)

/-- Reads the digits of an integer part too long for 64 bits: they raise the exponent. -/
def readLongInteger (positive : Bool) (significand : Nat) : Read Float := do
  let c ← get
  let j := digitsEnd c.input c.index
  jump j
  let exponent : Int := j - c.index
  match ← peek with
  | some 46 => readFraction positive significand exponent
  | some 101 | some 69 => readExponent positive significand exponent
  | _ => finishDouble positive significand exponent

/-- A whole number read so far: unsigned when positive; negative when it fits 64 bits signed and
is not zero; otherwise a double. -/
def integerNumber (positive : Bool) (significand : Nat) : Number :=
  if positive then .unsigned significand
  else if significand == 0 || Nat.pow 2 63 < significand then .double (-(significand.toUInt64.toFloat))
  else .negative (-(significand : Int))

/-- Reads what follows the integer part of a number. -/
def readNumberTail (positive : Bool) (significand : Nat) : Read Number := do
  match ← peek with
  | some 46 => .double <$> readFraction positive significand 0
  | some 101 | some 69 => .double <$> readExponent positive significand 0
  | _ => pure (integerNumber positive significand)

/-- Reads a number whose sign, if any, has been consumed. -/
def readNumber (positive : Bool) : Read Number := do
  match ← peek with
  | none => failHere .eofValue
  | some b =>
    advance
    if b == 48 then
      let c ← get
      if digitAt c.input c.index then failAhead .invalidNumber
      else readNumberTail positive 0
    else if 49 ≤ b && b ≤ 57 then
      let c ← get
      let (acc, j, _) := takeDigits c.input u64Max c.index (b.toNat - 48) 0
      jump j
      if digitAt c.input j then .double <$> readLongInteger positive acc
      else readNumberTail positive acc
    else failHere .invalidNumber

/-- Skips an exponent, checking only its shape. -/
def skipExponent : Read Unit := do
  advance
  match ← peek with
  | some 43 | some 45 => advance
  | _ => pure ()
  match ← peek with
  | some b =>
    advance
    if 48 ≤ b && b ≤ 57 then
      let c ← get
      jump (digitsEnd c.input c.index)
    else failHere .invalidNumber
  | none => failHere .invalidNumber

/-- Skips a number (the sign consumed), checking only its shape. -/
def skipNumber : Read Unit := do
  match ← peek with
  | none => failHere .invalidNumber
  | some b =>
    advance
    if b == 48 then
      let c ← get
      if digitAt c.input c.index then failAhead .invalidNumber
    else if 49 ≤ b && b ≤ 57 then
      let c ← get
      jump (digitsEnd c.input c.index)
    else failHere .invalidNumber
    match ← peek with
    | some 46 =>
      advance
      let c ← get
      let j := digitsEnd c.input c.index
      jump j
      if j == c.index then failAhead .invalidNumber
      else
        match ← peek with
        | some 101 | some 69 => skipExponent
        | _ => pure ()
    | some 101 | some 69 => skipExponent
    | _ => pure ()

/-! ## Arrays, objects and whole values -/

/-- The number of arrays and objects that may still be opened when reading starts. -/
def depthLimit : Nat := 128

/-- Enters an array or object at the cursor: fails when no depth is left, else consumes the
bracket and returns the depth left inside. -/
def enter (depth : Nat) : Read Nat := do
  if depth ≤ 1 then failAhead .recursionLimit
  else
    advance
    return depth - 1

/-- Reads array elements with `element` until the closing bracket, which is left in place. Each
element consumes at least one byte, so the bytes left bound the loop. -/
def readElements {α : Type} (element : Read α) : (first : Bool) → (fuel : Nat) → Read (List α)
  | _, 0 => failAhead .eofList
  | first, fuel + 1 => do
    match ← skipBlanks with
    | some 93 => return []
    | some 44 =>
      if first then
        let x ← element
        return x :: (← readElements element false fuel)
      else
        advance
        match ← skipBlanks with
        | some 93 => failAhead .trailingComma
        | some _ =>
          let x ← element
          return x :: (← readElements element false fuel)
        | none => failAhead .eofValue
    | some _ =>
      if first then
        let x ← element
        return x :: (← readElements element false fuel)
      else failAhead .expectedListCommaOrEnd
    | none => failAhead .eofList

/-- Consumes the end of an array: blanks and the closing bracket. -/
def closeArray : Read Unit := do
  match ← skipBlanks with
  | some 93 => advance
  | some 44 =>
    advance
    match ← skipBlanks with
    | some 93 => failAhead .trailingComma
    | _ => failAhead .trailingCharacters
  | some _ => failAhead .trailingCharacters
  | none => failAhead .eofList

/-- Consumes the end of an object: blanks and the closing brace. -/
def closeObject : Read Unit := do
  match ← skipBlanks with
  | some 125 => advance
  | some 44 => failAhead .trailingComma
  | some _ => failAhead .trailingCharacters
  | none => failAhead .eofObject

/-- Moves to the next key of an object: `none` at the closing brace (left in place), otherwise
the key, read as a string. -/
def nextKey (first : Bool) : Read (Option String) := do
  let found ← match ← skipBlanks with
    | some 125 => pure none
    | some 44 =>
      if first then pure (some (some 44))
      else do advance; pure (some (← skipBlanks))
    | some b => if first then pure (some (some b)) else failAhead .expectedObjectCommaOrEnd
    | none => failAhead .eofObject
  match found with
  | none => return none
  | some (some 34) => advance; return some (← readStringBody)
  | some (some 125) => failAhead .trailingComma
  | some (some _) => failAhead .keyMustBeString
  | some none => failAhead .eofValue

/-- Consumes the colon after a key. -/
def expectColon : Read Unit := do
  match ← skipBlanks with
  | some 58 => advance
  | some _ => failAhead .expectedColon
  | none => failAhead .eofObject

/-- Reads object members with `member` (called after the colon) until the closing brace. -/
def readMembers {α : Type} (member : String → Read α) :
    (first : Bool) → (fuel : Nat) → Read (List (String × α))
  | _, 0 => failAhead .eofObject
  | first, fuel + 1 => do
    match ← nextKey first with
    | none => return []
    | some k =>
      expectColon
      let v ← member k
      return (k, v) :: (← readMembers member false fuel)

/-- A bound on the loop rounds needed for the rest of the input. -/
def fuelLeft : Read Nat := do
  let c ← get
  return c.input.size - c.index + 1

/-- Reads any value, with `depth` arrays and objects left to open. -/
def readValue : (depth : Nat) → Read Value
  | 0 => failAhead .recursionLimit
  | depth + 1 => located do
    match ← skipBlanks with
    | none => failAhead .eofValue
    | some 110 => advance; expectIdent [117, 108, 108]; return .null
    | some 116 => advance; expectIdent [114, 117, 101]; return .bool true
    | some 102 => advance; expectIdent [97, 108, 115, 101]; return .bool false
    | some 45 => advance; return .number (← readNumber false)
    | some 34 => advance; return .string (← readStringBody)
    | some 91 =>
      let inner ← enter (depth + 1)
      let fuel ← fuelLeft
      let items ← closedBy (readElements (readValue depth) true fuel) closeArray
      let _ := inner
      return .array items
    | some 123 =>
      let _ ← enter (depth + 1)
      let fuel ← fuelLeft
      let members ← closedBy (readMembers (fun _ => readValue depth) true fuel) closeObject
      return .object (members.foldl (fun acc (k, v) => insertMember k v acc) [])
    | some b =>
      if 48 ≤ b && b ≤ 57 then return .number (← readNumber true)
      else failAhead .expectedValue

/-- Skips any value, checking its shape. Nesting is not limited here; brackets are matched by
recursion on the bytes left. -/
def skipValue : (fuel : Nat) → Read Unit
  | 0 => failAhead .eofValue
  | fuel + 1 => do
    match ← skipBlanks with
    | none => failAhead .eofValue
    | some 110 => advance; expectIdent [117, 108, 108]
    | some 116 => advance; expectIdent [114, 117, 101]
    | some 102 => advance; expectIdent [97, 108, 115, 101]
    | some 45 => advance; skipNumber
    | some 34 => advance; skipStringBody
    | some 91 =>
      advance
      skipItems fuel true
    | some 123 =>
      advance
      skipEntries fuel true
    | some b =>
      if 48 ≤ b && b ≤ 57 then skipNumber else failAhead .expectedValue
where
  /-- Skips array items up to and including the closing bracket. -/
  skipItems : (fuel : Nat) → (first : Bool) → Read Unit
    | 0, _ => failAhead .eofList
    | fuel + 1, first => do
      match ← skipBlanks with
      | some 93 => advance
      | some 44 =>
        if first then do skipValue fuel; skipItems fuel false
        else do advance; skipValue fuel; skipItems fuel false
      | some _ =>
        if first then do skipValue fuel; skipItems fuel false
        else failAhead .expectedListCommaOrEnd
      | none => failAhead .eofList
  /-- Skips object entries up to and including the closing brace. -/
  skipEntries : (fuel : Nat) → (first : Bool) → Read Unit
    | 0, _ => failAhead .eofObject
    | fuel + 1, first => do
      match ← skipBlanks with
      | some 125 => advance
      | some b =>
        if !first then
          if b == 44 then advance else failAhead .expectedObjectCommaOrEnd
        match ← skipBlanks with
        | some 34 =>
          advance
          skipStringBody
          match ← skipBlanks with
          | some 58 => advance
          | some _ => failAhead .expectedColon
          | none => failAhead .eofObject
          skipValue fuel
          skipEntries fuel false
        | some _ => failAhead .keyMustBeString
        | none => failAhead .eofObject
      | none => failAhead .eofObject

/-- Fails unless only blanks are left. -/
def expectEnd : Read Unit := do
  match ← skipBlanks with
  | some _ => failAhead .trailingCharacters
  | none => pure ()

/-- Runs a reader over a whole text: blanks may follow what it reads, nothing else. -/
def Read.runText {α : Type} (x : Read α) (input : ByteArray) : Except Error α :=
  let whole : Read α := do
    let a ← x
    expectEnd
    return a
  (whole.run.run ⟨input, 0⟩).1

/-- Reads a whole text as one value. -/
def parseValue (input : ByteArray) : Except Error Value :=
  (readValue depthLimit).runText input

end EntityLog.Json
