import EntityLog.Text.Blank
/-!
# Spans of time

A span is whole seconds and nanoseconds below `10^9`.

Spans are written as a list of parts from years down to nanoseconds, each a number and a unit with
no blank between, parts separated by one space, zero parts left out (`1h 30m`, `2days`, `0s` for
nothing). A year is 365.25 days and a month 30.44 days, so longer spans are split with those.

They are read as a sequence of numbers, each followed by a unit, with blanks allowed around both;
the text `0` alone is the empty span. Every number and every sum is a 64-bit word: a part whose
seconds or nanoseconds pass `2^64 - 1` is refused. A number may have a fraction after a point,
with at least one digit right after the point. The fraction is counted in nanoseconds for seconds
and shorter units, and in seconds for minutes and longer ones, and one step of its last digit must
be a whole number of those: `1.5s` and `1.25w` are read, `1.0ns`, `0.1M` and `1.001h` are refused.
-/

namespace EntityLog.Time

/-- The largest number a 64-bit word holds, which bounds every number read in a span. -/
def wordMax : Nat := Nat.pow 2 64 - 1

/-- A span of time. -/
structure Span where
  secs : Nat
  nanos : Nat
  deriving Repr, BEq, DecidableEq

namespace Span

/-- The empty span. -/
def zero : Span := ⟨0, 0⟩

/-- A span of whole seconds. -/
def ofSecs (s : Nat) : Span := ⟨s, 0⟩

/-- A span of whole milliseconds. -/
def ofMillis (ms : Nat) : Span := ⟨ms / 1000, ms % 1000 * 1000000⟩

/-- The span in nanoseconds. -/
def totalNanos (d : Span) : Nat := d.secs * 1000000000 + d.nanos

/-- Whether the span is empty. -/
def isZero (d : Span) : Bool := d.secs == 0 && d.nanos == 0

/-- The span in whole microseconds, truncated. -/
def micros (d : Span) : Nat := d.secs * 1000000 + d.nanos / 1000

/-- Seconds in a year of 365.25 days. -/
def yearSecs : Nat := 31557600

/-- Seconds in a month of 30.44 days. -/
def monthSecs : Nat := 2630016

/-- One part of the written form: nothing for zero, else the number and the unit, plural when
`plural` is set and the number exceeds one. -/
def part (value : Nat) (unit : String) (plural : Bool) : List String :=
  if value == 0 then []
  else [toString value ++ unit ++ (if plural && value > 1 then "s" else "")]

/-- The written form of a span. -/
def render (d : Span) : String :=
  if d.isZero then "0s"
  else
    let secs := d.secs
    let years := secs / yearSecs
    let ydays := secs % yearSecs
    let months := ydays / monthSecs
    let mdays := ydays % monthSecs
    let days := mdays / 86400
    let daySecs := mdays % 86400
    let parts :=
      part years "year" true ++ part months "month" true ++ part days "day" true ++
      part (daySecs / 3600) "h" false ++ part (daySecs % 3600 / 60) "m" false ++
      part (daySecs % 60) "s" false ++ part (d.nanos / 1000000) "ms" false ++
      part (d.nanos / 1000 % 1000) "us" false ++ part (d.nanos % 1000) "ns" false
    " ".intercalate parts

end Span

/-- Why a span text was refused. -/
inductive SpanFault where
  | invalidCharacter (offset : Nat)
  | numberExpected (offset : Nat)
  | unknownUnit (unit : String) (value : Nat)
  | numberOverflow
  | empty
  deriving Repr, BEq

/-- The message of a refusal. -/
def SpanFault.text : SpanFault → String
  | .invalidCharacter o => "invalid character at " ++ toString o
  | .numberExpected o => "expected number at " ++ toString o
  | .unknownUnit u v =>
    if u.isEmpty then
      "time unit needed, for example " ++ toString v ++ "sec or " ++ toString v ++ "ms"
    else
      "unknown time unit \"" ++ u ++ "\", supported units: ns, us/µs, ms, sec, min, hours, " ++
        "days, weeks, months, years (and few variations)"
  | .numberOverflow =>
    "number is too large or cannot be represented without a lack of precision " ++
      "(values below 1ns are not supported)"
  | .empty => "value was empty"

/-- The units a span is written in. -/
inductive SpanUnit where
  | nano | micro | milli | second | minute | hour | day | week | month | year
  deriving Repr, BEq, DecidableEq

namespace SpanUnit

/-- The unit a name stands for. -/
def ofName (unit : String) : Option SpanUnit :=
  if ["nanos", "nsec", "ns"].contains unit then some .nano
  else if ["usec", "us", "µs"].contains unit then some .micro
  else if ["millis", "msec", "ms"].contains unit then some .milli
  else if ["seconds", "second", "secs", "sec", "s"].contains unit then some .second
  else if ["minutes", "minute", "min", "mins", "m"].contains unit then some .minute
  else if ["hours", "hour", "hr", "hrs", "h"].contains unit then some .hour
  else if ["days", "day", "d"].contains unit then some .day
  else if ["weeks", "week", "wk", "wks", "w"].contains unit then some .week
  else if ["months", "month", "M"].contains unit then some .month
  else if ["years", "year", "yr", "yrs", "y"].contains unit then some .year
  else none

/-- One unit as whole seconds and nanoseconds; each unit is a number of only one of them. -/
def size : SpanUnit → Nat × Nat
  | .nano => (0, 1)
  | .micro => (0, 1000)
  | .milli => (0, 1000000)
  | .second => (1, 0)
  | .minute => (60, 0)
  | .hour => (3600, 0)
  | .day => (86400, 0)
  | .week => (604800, 0)
  | .month => (Span.monthSecs, 0)
  | .year => (Span.yearSecs, 0)

/-- What a fraction of the unit is counted in: the unit as a number of nanoseconds for seconds
and below, as a number of seconds above; `true` when counted in nanoseconds. -/
def fractionBase : SpanUnit → Nat × Bool
  | .nano => (1, true)
  | .micro => (1000, true)
  | .milli => (1000000, true)
  | .second => (1000000000, true)
  | u => (u.size.1, false)

end SpanUnit

/-- The product of two words, if it is a word. -/
def wordMul (a b : Nat) : Except SpanFault Nat :=
  if a * b > wordMax then .error .numberOverflow else .ok (a * b)

/-- The sum of two words, if it is a word. -/
def wordAdd (a b : Nat) : Except SpanFault Nat :=
  if a + b > wordMax then .error .numberOverflow else .ok (a + b)

/-- A letter that may be part of a unit name. -/
def isUnitLetter (c : Char) : Bool := c.isAlpha || c = 'µ'

/-- A number as read: its whole part, and the digits after the point with `10` to the power of
their count, once a point was read. -/
structure Amount where
  whole : Nat
  fraction : Option (Nat × Nat) := none

/-- The state of reading a span: the characters left with their byte offset, and the seconds and
nanoseconds so far. The nanoseconds may reach `10^9` exactly; they are carried only beyond. -/
structure SpanScan where
  rest : List Char
  offset : Nat
  secs : Nat := 0
  nanos : Nat := 0

/-- Moves past one character. -/
def SpanScan.step (s : SpanScan) (c : Char) (rest : List Char) : SpanScan :=
  { s with rest := rest, offset := s.offset + c.utf8Size }

/-- Skips blanks to the first digit of a number: `none` at the end of the text. Anything else is
refused at `start`, where the skipping began. -/
def firstDigit (start : Nat) (s : SpanScan) : Except SpanFault (Option (Nat × SpanScan)) :=
  match h : s.rest with
  | [] => .ok none
  | c :: rest =>
    if c.isDigit then .ok (some (c.toNat - 48, s.step c rest))
    else if Text.isBlank c then firstDigit start (s.step c rest)
    else .error (.numberExpected start)
termination_by s.rest.length
decreasing_by simp [SpanScan.step, h]

/-- Adds a digit to a number: to the fraction once a point was read, else to the whole part. -/
def Amount.push (a : Amount) (d : Nat) : Except SpanFault Amount :=
  match a.fraction with
  | none => do
    let w ← wordMul a.whole 10
    return { a with whole := ← wordAdd w d }
  | some (digits, scale) => do
    let digits ← wordAdd (← wordMul digits 10) d
    return { a with fraction := some (digits, ← wordMul scale 10) }

/-- Reads the rest of a number: digits, blanks, and one point with a digit right after it; stops
at a unit letter. A point without a digit after it is refused at the point. -/
def numberRest (a : Amount) (s : SpanScan) : Except SpanFault (Amount × SpanScan) :=
  match h : s.rest with
  | [] => .ok (a, s)
  | c :: rest =>
    if c.isDigit then do
      let a ← a.push (c.toNat - 48)
      numberRest a (s.step c rest)
    else if Text.isBlank c then numberRest a (s.step c rest)
    else if isUnitLetter c then .ok (a, s)
    else if c = '.' && a.fraction.isNone && (rest.head?.map Char.isDigit).getD false then
      numberRest { a with fraction := some (0, 1) } (s.step c rest)
    else .error (.invalidCharacter s.offset)
termination_by s.rest.length
decreasing_by all_goals simp [SpanScan.step, h]

/-- Reads a unit name: letters up to a blank, a digit or the end. A blank is consumed with the
name, a digit is not. -/
def unitRest (acc : List Char) (s : SpanScan) : Except SpanFault (String × SpanScan) :=
  match _h : s.rest with
  | [] => .ok (String.ofList acc.reverse, s)
  | c :: rest =>
    if c.isDigit then .ok (String.ofList acc.reverse, s)
    else if Text.isBlank c then .ok (String.ofList acc.reverse, s.step c rest)
    else if isUnitLetter c then unitRest (c :: acc) (s.step c rest)
    else .error (.invalidCharacter s.offset)
termination_by s.rest.length
decreasing_by simp_all [SpanScan.step]

/-- The seconds and nanoseconds of an amount of a unit. -/
def partOf (a : Amount) (u : SpanUnit) : Except SpanFault (Nat × Nat) := do
  let secs ← wordMul a.whole u.size.1
  let nanos ← wordMul a.whole u.size.2
  match a.fraction with
  | none => return (secs, nanos)
  | some (digits, scale) =>
    let (base, inNanos) := u.fractionBase
    if base % scale != 0 then throw .numberOverflow
    let extra ← wordMul digits (base / scale)
    if inNanos then return (secs, ← wordAdd nanos extra)
    else return (← wordAdd secs extra, nanos)

/-- Adds an amount of a named unit to the total. -/
def addPart (a : Amount) (unit : String) (s : SpanScan) : Except SpanFault SpanScan :=
  match SpanUnit.ofName unit with
  | none => .error (.unknownUnit unit a.whole)
  | some u => do
    let (secs, nanos) ← partOf a u
    let nanos ← wordAdd s.nanos nanos
    let (secs, nanos) ←
      if nanos > 1000000000 then
        pure (← wordAdd secs (nanos / 1000000000), nanos % 1000000000)
      else pure (secs, nanos)
    return { s with secs := ← wordAdd s.secs secs, nanos := nanos }

/-- Reads parts until the text ends. Each round consumes at least the first digit. -/
def readParts (first : Nat) (s : SpanScan) : (fuel : Nat) → Except SpanFault SpanScan
  | 0 => .ok s
  | fuel + 1 => do
    let (a, s) ← numberRest { whole := first } s
    let (unit, s) ← unitRest [] s
    let s ← addPart a unit s
    match s.rest with
    | c :: rest =>
      if c.isDigit then readParts (c.toNat - 48) (s.step c rest) fuel
      else
        match ← firstDigit s.offset s with
        | some (d, s) => readParts d s fuel
        | none => .ok s
    | [] => .ok s

/-- Reads a span. -/
def Span.parse (text : String) : Except SpanFault Span := do
  if text == "0" then return Span.zero
  let start : SpanScan := { rest := text.toList, offset := 0 }
  match ← firstDigit 0 start with
  | none => throw .empty
  | some (d, s) =>
    let s ← readParts d s (text.length + 1)
    let secs ← wordAdd s.secs (s.nanos / 1000000000)
    return ⟨secs, s.nanos % 1000000000⟩

end EntityLog.Time
