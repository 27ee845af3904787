import EntityLog.Toml.Document
import EntityLog.Decimal.Rounding
/-!
# Reading TOML text

A recursive-descent reader of TOML with the error reports of a combinator parser: a failure
records where reading stopped, whether it is final (a *cut*: no other alternative is tried), and
hints gathered on the way out — what was being read (`invalid table header`) and what was
expected there (``expected `.`, `]` ``) — plus a cause when a checked value was refused.

Alternatives are tried in order and the last failure is kept; a checked conversion that fails
reports the place where its input started.
-/

namespace EntityLog.Toml

/-- What a failure report says about where it happened. -/
inductive Hint where
  /-- What was being read. -/
  | label (what : String)
  /-- What would have been accepted. -/
  | expected (what : String)

/-- A failed reading: the byte offset, whether it is final, hints from inner to outer, and the
cause of a refused conversion. -/
structure Failure where
  pos : Nat
  cut : Bool := false
  hints : List Hint := []
  cause : Option String := none

/-- The report: the innermost label as "invalid …", then all expectations, then the cause, each
on its own line. -/
def Failure.message (f : Failure) : String :=
  let label := f.hints.findSome? fun h => match h with
    | .label l => some l
    | .expected _ => none
  let expected := f.hints.filterMap fun h => match h with
    | .expected e => some e
    | .label _ => none
  let parts := (label.map (fun l => ["invalid " ++ l])).getD [] ++
    (if expected.isEmpty then [] else ["expected " ++ ", ".intercalate expected]) ++
    (f.cause.map fun c => [c]).getD []
  "\n".intercalate parts

/-- A reader over the input bytes with the offset as state. -/
abbrev Parse := ReaderT ByteArray (StateT Nat (Except Failure))

namespace Parse

/-- The byte at the offset, if any. -/
def peek : Parse (Option UInt8) := do return (← read)[← get]?

/-- The byte `k` places after the offset. -/
def peekAt (k : Nat) : Parse (Option UInt8) := do return (← read)[(← get) + k]?

/-- Moves forward. -/
def advance (n : Nat := 1) : Parse Unit := modify (· + n)

/-- Fails here, so that an alternative may be tried. -/
def backtrack {α : Type} : Parse α := do throw { pos := ← get }

/-- Fails at `pos` with a cause. -/
def refuse {α : Type} (pos : Nat) (cause : Option String) : Parse α :=
  throw { pos := pos, cause := cause }

/-- Runs `p`; `none` when it fails without a cut, the offset then restored. -/
def attempt {α : Type} (p : Parse α) : Parse (Option α) :=
  tryCatch (some <$> p) fun f => if f.cut then throw f else pure none

/-- `p`, or `q` from the same offset when `p` fails without a cut. -/
def orElse {α : Type} (p q : Parse α) : Parse α :=
  tryCatch p fun f => if f.cut then throw f else q

/-- Makes every failure of `p` final. -/
def cut {α : Type} (p : Parse α) : Parse α :=
  tryCatch p fun f => throw { f with cut := true }

/-- Adds a hint to every failure of `p`. -/
def hint {α : Type} (h : Hint) (p : Parse α) : Parse α :=
  tryCatch p fun f => throw { f with hints := f.hints ++ [h] }

/-- Adds a label. -/
def label {α : Type} (what : String) (p : Parse α) : Parse α := hint (.label what) p

/-- Adds an expectation. -/
def expect {α : Type} (what : String) (p : Parse α) : Parse α := hint (.expected what) p

/-- One given byte. -/
def byte (b : UInt8) : Parse Unit := do
  if (← peek) == some b then advance else backtrack

/-- One byte satisfying `pred`. -/
def byteWhere (pred : UInt8 → Bool) : Parse UInt8 := do
  match ← peek with
  | some b => if pred b then do advance; pure b else backtrack
  | none => backtrack

/-- A literal text, all or nothing. -/
def text (bs : List UInt8) : Parse Unit := do
  let input ← read
  let p ← get
  if (List.range bs.length).all fun i => input[p + i]? == bs[i]? then advance bs.length
  else backtrack

/-- The end of the offset's run of bytes satisfying `pred`. -/
def runEnd (input : ByteArray) (pred : UInt8 → Bool) (i : Nat) : Nat :=
  if h : i < input.size then
    if pred input[i] then runEnd input pred (i + 1) else i
  else i
termination_by input.size - i

/-- The bytes satisfying `pred` from the offset, as a range. -/
def takeWhile (pred : UInt8 → Bool) : Parse (Nat × Nat) := do
  let p ← get
  let e := runEnd (← read) pred p
  set e
  return (p, e)

/-- At least one byte satisfying `pred`. -/
def takeWhile1 (pred : UInt8 → Bool) : Parse (Nat × Nat) := do
  let (s, e) ← takeWhile pred
  if s == e then backtrack else return (s, e)

/-- The end of the input. -/
def eof : Parse Unit := do
  if (← peek).isNone then pure () else backtrack

/-- The text of a byte range. -/
def slice (s e : Nat) : Parse String := do
  return (String.fromUTF8? ((← read).extract s e)).getD ""

/-- Repeats `p` while it succeeds and moves forward. -/
def many (p : Parse Unit) : (fuel : Nat) → Parse Unit
  | 0 => pure ()
  | fuel + 1 => do
    let start ← get
    match ← attempt p with
    | none => pure ()
    | some () => if (← get) == start then pure () else many p fuel

/-- A bound on loop rounds: the bytes left. -/
def fuel : Parse Nat := do return (← read).size - (← get) + 1

end Parse

open Parse

/-! ## Blanks, comments and line ends -/

/-- A space or a tab. -/
def isWs (b : UInt8) : Bool := b == 32 || b == 9

/-- Spaces and tabs. -/
def ws : Parse Unit := do let _ ← takeWhile isWs

/-- A line feed, or a carriage return and a line feed. -/
def newline : Parse Unit := do
  match ← peek with
  | some 10 => advance
  | some 13 => do advance; byte 10
  | _ => backtrack

/-- A character allowed in a comment: tab, printable ASCII, or any non-ASCII byte. -/
def isCommentChar (b : UInt8) : Bool := b == 9 || (0x20 ≤ b && b ≤ 0x7E) || 0x80 ≤ b

/-- A comment up to the end of its line. -/
def comment : Parse Unit := do
  byte 35
  let _ ← takeWhile isCommentChar

/-- A line end or the end of the input. -/
def lineEnding : Parse Unit := orElse newline eof

/-- Blanks, an optional comment, and the end of the line. -/
def lineTrailing : Parse Unit := do
  ws
  let _ ← attempt comment
  lineEnding

/-- Any run of blanks, comments and line ends. -/
def wsCommentNewline : (fuel : Nat) → Parse Unit
  | 0 => pure ()
  | fuel + 1 => do
    let start ← get
    ws
    match ← peek with
    | some 35 => comment; newline
    | some 10 | some 13 => newline
    | _ => return ()
    if (← get) != start then wsCommentNewline fuel

/-! ## Strings -/

/-- A byte of a basic string that needs no escape. -/
def isBasicUnescaped (b : UInt8) : Bool :=
  isWs b || b == 0x21 || (0x23 ≤ b && b ≤ 0x5B) || (0x5D ≤ b && b ≤ 0x7E) || 0x80 ≤ b

/-- A hexadecimal digit. -/
def isHexDigit (b : UInt8) : Bool :=
  (48 ≤ b && b ≤ 57) || (65 ≤ b && b ≤ 70) || (97 ≤ b && b ≤ 102)

/-- The value of hexadecimal digits. -/
def hexValueOf (bs : List UInt8) : Nat :=
  bs.foldl (fun acc b =>
    acc * 16 + (if b ≤ 57 then b.toNat - 48 else if b ≤ 70 then b.toNat - 55 else b.toNat - 87)) 0

/-- Exactly `n` hexadecimal digits naming a code point. -/
def hexEscape (n : Nat) : Parse String := do
  let start ← get
  let input ← read
  let digits := (List.range n).filterMap fun i => input[start + i]?
  if digits.length == n && digits.all isHexDigit then
    advance n
    let code := hexValueOf digits
    if code > 0x10FFFF || (0xD800 ≤ code && code ≤ 0xDFFF) then
      refuse start (some "value is out of range")
    else return String.singleton (Char.ofNat code)
  else
    -- the digits present are consumed before the length check fails
    refuse start none

/-- The character after a backslash. -/
def escapeSeqChar : Parse String := do
  match ← peek with
  | none => backtrack
  | some b =>
    advance
    if b == 98 then return "\x08"
    else if b == 102 then return "\x0c"
    else if b == 110 then return "\n"
    else if b == 114 then return "\r"
    else if b == 116 then return "\t"
    else if b == 92 then return "\\"
    else if b == 34 then return "\""
    else if b == 117 then cut (label "unicode 4-digit hex code" (hexEscape 4))
    else if b == 85 then cut (label "unicode 8-digit hex code" (hexEscape 8))
    else
      cut (["b", "f", "n", "r", "t", "u", "U", "\\", "\""].foldl
        (fun p c => expect ("`" ++ c ++ "`") p) (label "escape sequence" backtrack))

/-- A backslash escape. -/
def escaped : Parse String := do
  byte 92
  escapeSeqChar

/-- Chunks of a basic string's body. -/
def basicChars : Parse String :=
  orElse (do let (s, e) ← takeWhile1 isBasicUnescaped; slice s e) escaped

/-- Collects chunks read by `p` until it fails. -/
def collect (p : Parse String) : (fuel : Nat) → Parse String
  | 0 => pure ""
  | fuel + 1 => do
    match ← attempt p with
    | none => pure ""
    | some s => return s ++ (← collect p fuel)

/-- A basic string between double quotes, with escapes. -/
def basicString : Parse String := do
  byte 34
  let body ← collect basicChars (← fuel)
  cut (label "basic string" (byte 34))
  return body

/-- A byte of a literal string. -/
def isLiteralChar (b : UInt8) : Bool :=
  b == 9 || (0x20 ≤ b && b ≤ 0x26) || (0x28 ≤ b && b ≤ 0x7E) || 0x80 ≤ b

/-- A literal string between single quotes, taken as written. -/
def literalString : Parse String :=
  label "literal string" do
    byte 39
    let (s, e) ← cut (takeWhile isLiteralChar)
    cut (byte 39)
    slice s e

/-- A byte of a multi-line basic string that needs no escape. -/
def isMlbUnescaped (b : UInt8) : Bool := isBasicUnescaped b

/-- A backslash at the end of a line: it drops the line end and the blanks after it. -/
def escapedNewline : Parse Unit := do
  byte 92
  ws
  newline
  many (orElse (do let _ ← takeWhile1 isWs) newline) (← fuel)

/-- A chunk of a multi-line basic string's body. -/
def mlbContent : Parse String :=
  orElse (do let (s, e) ← takeWhile1 isMlbUnescaped; slice s e)
    (orElse (do escapedNewline; pure "")
      (orElse escaped (do newline; pure "\n")))

/-- One or two quotes inside a multi-line string, when `rest` follows them. -/
def innerQuotes (quote : UInt8) (rest : Parse Unit) : Parse String :=
  orElse (do byte quote; byte quote; let p ← get; rest; set p; pure (String.ofList (List.replicate 2 (Char.ofNat quote.toNat))))
    (do byte quote; let p ← get; rest; set p; pure (String.singleton (Char.ofNat quote.toNat)))

/-- The body of a multi-line string: chunks, with runs of one or two quotes inside. -/
def multiBody (quote : UInt8) (content : Parse String) : (fuel : Nat) → Parse String
  | 0 => pure ""
  | fuel + 1 => do
    let first ← collect content (← Parse.fuel)
    let notQuote : Parse Unit := do
      match ← peek with
      | some b => if b == quote then backtrack else pure ()
      | none => backtrack
    match ← attempt (innerQuotes quote notQuote) with
    | some q =>
      match ← attempt content with
      | some c => return first ++ q ++ c ++ (← multiBody quote content fuel)
      | none => return first
    | none =>
      let closing : Parse Unit := do byte quote; byte quote; byte quote
      match ← attempt (innerQuotes quote closing) with
      | some q => return first ++ q
      | none => return first

/-- A multi-line basic string between triple double quotes. -/
def mlBasicString : Parse String :=
  label "multiline basic string" do
    text [34, 34, 34]
    let _ ← attempt newline
    let body ← cut (multiBody 34 mlbContent (← fuel))
    cut (text [34, 34, 34])
    return body

/-- A byte of a multi-line literal string. -/
def isMllChar (b : UInt8) : Bool := b == 9 || (0x20 ≤ b && b ≤ 0x26) || (0x28 ≤ b && b ≤ 0x7E) || 0x80 ≤ b

/-- A chunk of a multi-line literal string's body. -/
def mllContent : Parse String :=
  orElse (do let (s, e) ← takeWhile1 isMllChar; slice s e) (do newline; pure "\n")

/-- A multi-line literal string between triple single quotes. -/
def mlLiteralString : Parse String :=
  label "multiline literal string" do
    text [39, 39, 39]
    let _ ← attempt newline
    let body ← cut (multiBody 39 mllContent (← fuel))
    cut (text [39, 39, 39])
    return body

/-- Any string form. -/
def anyString : Parse String :=
  orElse mlBasicString (orElse basicString (orElse mlLiteralString literalString))

/-! ## Keys -/

/-- A byte of a bare key. -/
def isBareKeyChar (b : UInt8) : Bool :=
  (65 ≤ b && b ≤ 90) || (97 ≤ b && b ≤ 122) || (48 ≤ b && b ≤ 57) || b == 45 || b == 95

/-- A bare or quoted key, with its span. -/
def simpleKey : Parse Key := do
  let start ← get
  let name ← match ← peek with
    | some 34 => basicString
    | some 39 => literalString
    | some _ => do let (s, e) ← takeWhile1 isBareKeyChar; slice s e
    | none => backtrack
  return ⟨name, ⟨start, ← get⟩⟩

/-- Keys joined by dots, blanks allowed around each. -/
def dottedKey : Parse (List Key) :=
  label "key" do
    let one : Parse Key := do ws; let k ← simpleKey; ws; pure k
    let first ← one
    let rec more : (fuel : Nat) → Parse (List Key)
      | 0 => pure []
      | fuel + 1 => do
        match ← attempt (do byte 46; one) with
        | some k => return k :: (← more fuel)
        | none => pure []
    return first :: (← more (← fuel))

/-! ## Numbers and dates -/

/-- A decimal digit. -/
def isDigit (b : UInt8) : Bool := 48 ≤ b && b ≤ 57

/-- Digits with single underscores between them, after a first digit that `first` accepts. -/
def digitRun (first : UInt8 → Bool) (digit : UInt8 → Bool) : Parse Unit := do
  let _ ← byteWhere first
  many (orElse (do let _ ← byteWhere digit)
    (do byte 95; cut (expect "digit" (do let _ ← byteWhere digit)))) (← fuel)

/-- A decimal integer's text: an optional sign, then `0` alone or digits without a leading
zero. -/
def decInt : Parse Unit :=
  label "integer" do
    let _ ← attempt (byteWhere fun b => b == 43 || b == 45)
    orElse (digitRun (fun b => 49 ≤ b && b ≤ 57) isDigit) (do let _ ← byteWhere isDigit)

/-- The text of a byte range without underscores. -/
def plainDigits (s e : Nat) : Parse String := do
  return String.ofList ((← slice s e).toList.filter (· != '_'))

/-- Reads a signed decimal text as a 64-bit integer. -/
def parseI64 (t : String) : Except String Int :=
  let (negative, digits) := match t.toList with
    | '-' :: rest => (true, rest)
    | '+' :: rest => (false, rest)
    | cs => (false, cs)
  if digits.isEmpty then .error "invalid digit found in string"
  else
    let v : Nat := digits.foldl (fun acc c => acc * 10 + (c.toNat - 48)) 0
    if negative then
      if v > Nat.pow 2 63 then .error "number too small to fit in target type" else .ok (-(v : Int))
    else if v ≥ Nat.pow 2 63 then .error "number too large to fit in target type" else .ok v

/-- An integer in base 16, 8 or 2 after its prefix. -/
def radixInt (lbl : String) (prefixByte : UInt8) (digit : UInt8 → Bool) (base : Nat) :
    Parse Int := do
  let start ← get
  let s ← cut (label lbl (do
    byte 48; byte prefixByte
    let s ← get
    cut (digitRun digit digit)
    pure s))
  let e ← get
  let v := (← plainDigits s e).toList.foldl (fun acc c =>
    acc * base + (if c.toNat ≤ 57 then c.toNat - 48 else if c.toNat ≤ 70 then c.toNat - 55
      else c.toNat - 87)) 0
  if v ≥ Nat.pow 2 63 then refuse start (some "number too large to fit in target type") |> cut
  else return v

/-- An integer. -/
def integer : Parse Int := do
  let start ← get
  match ← peek, ← peekAt 1 with
  | some 48, some 120 => radixInt "hexadecimal integer" 120 isHexDigit 16
  | some 48, some 111 => radixInt "octal integer" 111 (fun b => 48 ≤ b && b ≤ 55) 8
  | some 48, some 98 => radixInt "binary integer" 98 (fun b => b == 48 || b == 49) 2
  | _, _ =>
    decInt
    let e ← get
    match parseI64 (← plainDigits start e) with
    | .ok v => return v
    | .error m => cut (refuse start (some m))

/-- Digits that may start with zero, underscores between them. -/
def zeroPrefixableInt : Parse Unit := digitRun isDigit isDigit

/-- A fraction: a point and digits. -/
def frac : Parse Unit := do
  byte 46
  cut (expect "digit" zeroPrefixableInt)

/-- An exponent: `e` or `E`, an optional sign, digits. -/
def exponent : Parse Unit := do
  let _ ← byteWhere fun b => b == 101 || b == 69
  let _ ← attempt (byteWhere fun b => b == 43 || b == 45)
  cut zeroPrefixableInt

/-- The value of a decimal float text (underscores removed), rounded to the nearest double. -/
def floatOfText (t : String) : Float :=
  let cs := t.toList
  let (negative, rest) := match cs with
    | '-' :: r => (true, r)
    | '+' :: r => (false, r)
    | r => (false, r)
  let mantissa := rest.takeWhile fun c => c != 'e' && c != 'E'
  let expPart := (rest.dropWhile fun c => c != 'e' && c != 'E').drop 1
  let intPart := mantissa.takeWhile (· != '.')
  let fracPart := (mantissa.dropWhile (· != '.')).drop 1
  let digits : Nat := (intPart ++ fracPart).foldl (fun acc c => acc * 10 + (c.toNat - 48)) 0
  let e : Int := match expPart with
    | '-' :: ds => -((ds.foldl (fun acc c => acc * 10 + (c.toNat - 48)) 0 : Nat) : Int)
    | '+' :: ds => (ds.foldl (fun acc c => acc * 10 + (c.toNat - 48)) 0 : Nat)
    | ds => (ds.foldl (fun acc c => acc * 10 + (c.toNat - 48)) 0 : Nat)
  let f := (Decimal.Digits.toFloat ⟨digits, e - (fracPart.length : Int)⟩)
  if negative then -f else f

/-- `inf` or `nan` with an optional sign. -/
def specialFloat : Parse Float := do
  let sign ← attempt (byteWhere fun b => b == 43 || b == 45)
  let f ← orElse (do text [105, 110, 102]; pure (Float.ofBits 0x7FF0000000000000))
    (do text [110, 97, 110]; pure (Float.ofBits 0x7FF8000000000000))
  return if sign == some 45 then -f else f

/-- A float: an integer part with a fraction and/or an exponent, or a special value. An infinite
result is refused. -/
def float : Parse Float :=
  label "floating-point number" do
    let start ← get
    let finite : Parse Float := do
      decInt
      orElse exponent (do frac; let _ ← attempt exponent)
      let e ← get
      let f := floatOfText (← plainDigits start e)
      if f.isInf && f > 0 then cut (refuse start none) else return f
    orElse finite specialFloat

/-- Exactly `n` digits. -/
def fixedDigits (n : Nat) : Parse Nat := do
  let input ← read
  let p ← get
  let ds := (List.range n).filterMap fun i => input[p + i]?
  if ds.length == n && ds.all isDigit then
    advance n
    return ds.foldl (fun acc b => acc * 10 + (b.toNat - 48)) 0
  else backtrack

/-- A two-digit field checked against its range. -/
def rangedField (lo hi : Nat) : Parse Nat := do
  let start ← get
  let v ← fixedDigits 2
  if lo ≤ v && v ≤ hi then return v else refuse start (some "value is out of range")

/-- A time of day: hours, minutes, seconds and an optional fraction. -/
def partialTime : Parse Unit := do
  let _ ← rangedField 0 23
  byte 58
  cut do
    let _ ← rangedField 0 59
    byte 58
    let _ ← rangedField 0 60
    let _ ← attempt (do byte 46; let _ ← takeWhile1 isDigit)

/-- A UTC offset: `Z` or a sign with hours and minutes. -/
def timeOffset : Parse Unit :=
  orElse (do let _ ← byteWhere fun b => b == 90 || b == 122)
    (do
      let _ ← byteWhere fun b => b == 43 || b == 45
      cut do
        let _ ← rangedField 0 23
        byte 58
        let _ ← rangedField 0 59)

/-- A date, a date and time, or a time, as text. -/
def dateTime : Parse String := do
  let start ← get
  let dated : Parse Unit := do
    let year ← fixedDigits 4
    byte 45
    let month ← cut (rangedField 1 12)
    cut (byte 45)
    let dayStart ← get
    let day ← cut (fixedDigits 2)
    let leap := (year % 4 == 0 && year % 100 != 0) || year % 400 == 0
    let maxDay := if month == 2 then (if leap then 29 else 28)
      else if month == 4 || month == 6 || month == 9 || month == 11 then 30 else 31
    if day < 1 || day > maxDay then cut (refuse dayStart (some "value is out of range"))
    let _ ← attempt do
      let _ ← byteWhere fun b => b == 84 || b == 116 || b == 32
      partialTime
      let _ ← attempt timeOffset
  orElse dated partialTime
  slice start (← get)

/-! ## Values -/

/-- The nesting allowed for arrays and inline tables. -/
def nestingLimit : Nat := 80

/-- The table of an inline table's pairs. -/
def buildInline (pairs : List (List Key × Node)) : Except KeyFault Node :=
  pairs.foldlM (fun t (keys, v) =>
    match splitLast keys with
    | (before, some last) => addKeyValue ⟨true, true⟩ t none before last v
    | (_, none) => pure t) (Node.emptyTable false false true none)

/-- An array: values read by `element`, separated by commas, a trailing comma allowed,
blanks, comments and line ends anywhere between. -/
def array (element : Parse Node) : Parse Node :=
  label "array" do
    let start ← get
    byte 91
    let items ← cut do
      if (← peek) == some 93 then pure []
      else
        let one : Parse Node := do
          wsCommentNewline (← fuel)
          let v ← element
          wsCommentNewline (← fuel)
          pure v
        let items ← match ← attempt one with
          | none => pure []
          | some first =>
            let rec more : (fuel : Nat) → Parse (List Node)
              | 0 => pure []
              | fuel + 1 => do
                match ← attempt (do byte 44; one) with
                | some v => return v :: (← more fuel)
                | none => pure []
            pure (first :: (← more (← fuel)))
        if !items.isEmpty then let _ ← attempt (byte 44)
        wsCommentNewline (← fuel)
        pure items
    cut (expect "`]`" (byte 93))
    return .array items ⟨start, ← get⟩

/-- A key-value pair inside an inline table, its value read by `element`. -/
def inlineKeyValue (element : Parse Node) : Parse (List Key × Node) := do
  let keys ← dottedKey
  cut do
    expect "`=`" (expect "`.`" (byte 61))
    ws
    let v ← element
    ws
    pure (keys, v)

/-- An inline table: key-value pairs between braces, separated by commas. -/
def inlineTable (element : Parse Node) : Parse Node := do
  let start ← get
  byte 123
  let bodyStart ← get
  let pairs ← cut do
    let pairs ← match ← attempt (inlineKeyValue element) with
      | none => pure []
      | some first =>
        let rec more : (fuel : Nat) → Parse (List (List Key × Node))
          | 0 => pure []
          | fuel + 1 => do
            match ← attempt (do byte 44; inlineKeyValue element) with
            | some kv => return kv :: (← more fuel)
            | none => pure []
        pure (first :: (← more (← fuel)))
    ws
    pure pairs
  let table ← match buildInline pairs with
    | .ok t => pure t
    | .error f => cut (refuse bodyStart (some f.text))
  cut (expect "`\x7d`" (label "inline table" (byte 125)))
  match table with
  | .table es _ _ _ _ => return .table es false false true (some ⟨start, ← get⟩)
  | other => return other

/-- A value. -/
def value : (depth : Nat) → Parse Node
  | 0 => do let p ← get; throw { pos := p, cut := true, cause := some "recursion limit exceeded" }
  | depth + 1 => do
    let start ← get
    let finish (v : Scalar) : Parse Node := do return .scalar v ⟨start, ← get⟩
    let textHints {α : Type} (p : Parse α) : Parse α :=
      expect "`'`" (expect "`\"`" (label "string" p))
    match ← peek with
    | none => backtrack
    | some b =>
      if b == 34 || b == 39 then finish (.string (← anyString))
      else if b == 91 then array (value depth)
      else if b == 123 then inlineTable (value depth)
      else if b == 43 || b == 45 || isDigit b then
        orElse (do finish (.datetime (← dateTime)))
          (orElse (do finish (.float (← float))) (do finish (.integer (← integer))))
      else if b == 95 then expect "leading digit" (do finish (.integer (← integer)))
      else if b == 46 then expect "leading digit" (do finish (.float (← float)))
      else if b == 116 then textHints (do cut (text [116, 114, 117, 101]); finish (.bool true))
      else if b == 102 then
        textHints (do cut (text [102, 97, 108, 115, 101]); finish (.bool false))
      else if b == 105 then
        textHints (do text [105, 110, 102]; finish (.float (Float.ofBits 0x7FF0000000000000)))
      else if b == 110 then
        textHints (do text [110, 97, 110]; finish (.float (Float.ofBits 0x7FF8000000000000)))
      else textHints backtrack

/-! ## Lines of a document -/

/-- A key-value line: keys, `=`, a value, and the end of the line. -/
def keyValueLine : Parse (List Key × Node) := do
  let keys ← dottedKey
  cut do
    expect "`=`" (expect "`.`" (byte 61))
    ws
    let v ← value nestingLimit
    expect "`#`" (expect "newline" lineTrailing)
    pure (keys, v)

/-- A table header `[a.b]` or `[[a.b]]` with the end of its line: the keys, whether it names an
array of tables, and the span of the header. -/
def header : Parse (List Key × Bool × Span) := do
  let start ← get
  let asArray := (← peekAt 1) == some 91
  if asArray then text [91, 91] else byte 91
  let keys ← cut dottedKey
  cut (expect (if asArray then "`]]`" else "`]`") (expect "`.`"
    (if asArray then text [93, 93] else byte 93)))
  let span : Span := ⟨start, ← get⟩
  cut (expect "`#`" (expect "newline" lineTrailing))
  return (keys, asArray, span)

end EntityLog.Toml
