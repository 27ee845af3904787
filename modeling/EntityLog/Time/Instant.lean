import EntityLog.Text.Blank
import EntityLog.Decimal.Layout
/-!
# Instants

A point in UTC time: a day of the proleptic Gregorian calendar, a second of that day and
nanoseconds. A leap second is the second `23:59:59` (or any `:59` after an offset shift) with
nanoseconds from `10^9` on.

Instants are written in RFC 3339 form in UTC, `2026-01-01T00:00:00Z`, with zero, three, six or
nine fraction digits, the fewest that are exact; a year outside `0 .. 9999` carries its sign and
at least four digits. They are read leniently: blanks may stand between the parts, the separator
may be `T`, `t` or a space, fraction digits past the ninth are dropped, and the offset may be `Z`,
`z`, `UTC` in any case or `±hh:mm` (the colon optional).
-/

namespace EntityLog.Time

/-- The proleptic Gregorian leap-year rule. -/
def isLeapYear (y : Int) : Bool := (y % 4 == 0 && y % 100 != 0) || y % 400 == 0

/-- The number of days of a month (1 to 12) in a year. -/
def daysInMonth (y : Int) (m : Nat) : Nat :=
  if m == 2 then (if isLeapYear y then 29 else 28)
  else if m == 4 || m == 6 || m == 9 || m == 11 then 30
  else 31

/-- Days from 1970-01-01 to a date, counting in 400-year eras. -/
def daysFromCivil (year : Int) (month day : Nat) : Int :=
  let y : Int := if month ≤ 2 then year - 1 else year
  let era := y / 400
  let yoe := y - era * 400
  let mp : Int := if month > 2 then (month : Int) - 3 else (month : Int) + 9
  let doy := (153 * mp + 2) / 5 + (day : Int) - 1
  let doe := yoe * 365 + yoe / 4 - yoe / 100 + doy
  era * 146097 + doe - 719468

/-- The date of a day counted from 1970-01-01: year, month and day of month. -/
def civilFromDays (days : Int) : Int × Nat × Nat :=
  let z := days + 719468
  let era := z / 146097
  let doe := z - era * 146097
  let yoe := (doe - doe / 1460 + doe / 36524 - doe / 146096) / 365
  let doy := doe - (365 * yoe + yoe / 4 - yoe / 100)
  let mp := (5 * doy + 2) / 153
  let d := doy - (153 * mp + 2) / 5 + 1
  let m := if mp < 10 then mp + 3 else mp - 9
  let y := yoe + era * 400 + (if m ≤ 2 then 1 else 0)
  (y, m.toNat, d.toNat)

/-- The smallest and largest years of the calendar. -/
def minYear : Int := -262143

/-- The largest year of the calendar. -/
def maxYear : Int := 262142

/-- A point in UTC time. -/
structure Instant where
  /-- Days since 1970-01-01. -/
  day : Int
  /-- Seconds since midnight, below 86400. -/
  second : Nat
  /-- Nanoseconds, below `2 · 10^9`; from `10^9` on only in a leap second. -/
  nanos : Nat
  deriving Repr, BEq, DecidableEq

/-- Why a timestamp text was refused. -/
inductive TimeFault where
  | outOfRange | impossible | notEnough | invalid | tooShort | tooLong
  deriving Repr, BEq

/-- The message of a refusal. -/
def TimeFault.text : TimeFault → String
  | .outOfRange => "input is out of range"
  | .impossible => "no possible date and time matching input"
  | .notEnough => "input is not enough for unique date and time"
  | .invalid => "input contains invalid characters"
  | .tooShort => "premature end of input"
  | .tooLong => "trailing input"

namespace Instant

/-- The instant at a date and time of day. -/
def ofParts (year : Int) (month day hour minute second nanos : Nat) : Instant :=
  ⟨daysFromCivil year month day, hour * 3600 + minute * 60 + second, nanos⟩

/-- Two digits, zero padded. -/
def pad2 (n : Nat) : String := if n < 10 then "0" ++ toString n else toString n

/-- A year: four digits in `0 .. 9999`, otherwise a sign and at least four digits. -/
def yearText (y : Int) : String :=
  let digits := toString y.natAbs
  let padded := Decimal.zeros (4 - digits.length) ++ digits
  if 0 ≤ y ∧ y ≤ 9999 then padded
  else (if y < 0 then "-" else "+") ++ padded

/-- The hour, minute and second of the day, and the nanoseconds past that second; a leap second
shows as second 60. -/
def clock (t : Instant) : Nat × Nat × Nat × Nat :=
  let (sec, nano) := if t.nanos ≥ 1000000000 then (t.second + 1, t.nanos - 1000000000)
    else (t.second, t.nanos)
  let h := t.second / 3600
  let m := t.second % 3600 / 60
  let s := sec - h * 3600 - m * 60
  (h, m, s, nano)

/-- The fraction of a second with the fewest of zero, three, six or nine digits that is exact. -/
def fractionText (nano : Nat) : String :=
  let fixed (digits : Nat) (v : Nat) : String :=
    let t := toString v
    "." ++ Decimal.zeros (digits - t.length) ++ t
  if nano == 0 then ""
  else if nano % 1000000 == 0 then fixed 3 (nano / 1000000)
  else if nano % 1000 == 0 then fixed 6 (nano / 1000)
  else fixed 9 nano

/-- The RFC 3339 text in UTC. -/
def render (t : Instant) : String :=
  let (y, mo, d) := civilFromDays t.day
  let (h, mi, s, nano) := t.clock
  yearText y ++ "-" ++ pad2 mo ++ "-" ++ pad2 d ++ "T" ++ pad2 h ++ ":" ++ pad2 mi ++ ":" ++
    pad2 s ++ fractionText nano ++ "Z"

/-- The compact stamp `yyyymmddHHMMSSmmm` (year as in `render`, milliseconds truncated). -/
def stamp (t : Instant) : String :=
  let (y, mo, d) := civilFromDays t.day
  let (h, mi, s, nano) := t.clock
  yearText y ++ pad2 mo ++ pad2 d ++ pad2 h ++ pad2 mi ++ pad2 s ++
    (let ms := toString (nano / 1000000); Decimal.zeros (3 - ms.length) ++ ms)

/-- Whole milliseconds since 1970-01-01 (leap seconds counted into the next second). -/
def millis (t : Instant) : Int :=
  (t.day * 86400 + t.second) * 1000 + (t.nanos / 1000000 : Nat)

/-- The instant a number of milliseconds after 1970-01-01. -/
def ofMillis (ms : Int) : Instant :=
  let secs := ms / 1000
  let day := secs / 86400
  ⟨day, (secs - day * 86400).toNat, ((ms - secs * 1000).toNat) * 1000000⟩

end Instant

/-! ## Reading timestamps -/

/-- A reader of a prefix of a character list. -/
abbrev Scan (α : Type) := List Char → Except TimeFault (α × List Char)

/-- Takes between `least` and `most` ASCII digits as a number. Fewer than `least` characters is
too short, a non-digit among the first `least` is invalid. -/
def scanNumber (least most : Nat) : Scan Nat := fun s =>
  if s.length < least then .error .tooShort
  else
    let digits := (s.take most).takeWhile Char.isDigit
    if digits.length < least then .error .invalid
    else
      let v := digits.foldl (fun acc c => acc * 10 + (c.toNat - 48)) 0
      if v ≥ Nat.pow 2 63 then .error .outOfRange else .ok (v, s.drop digits.length)

/-- Takes a literal text. -/
def scanLiteral (lit : List Char) : Scan Unit := fun s =>
  if s.length < lit.length then .error .tooShort
  else if s.take lit.length == lit then .ok ((), s.drop lit.length)
  else .error .invalid

/-- A field value checked against its range. -/
def inRange (v lo hi : Nat) : Except TimeFault Nat :=
  if lo ≤ v ∧ v ≤ hi then .ok v else .error .outOfRange

/-- The year: four digits at most, or any number of digits after a sign. -/
def scanYear : Scan Int := fun s =>
  let s := Text.dropBlank s
  match s with
  | '-' :: rest => do
    let (v, r) ← scanNumber 1 rest.length rest
    if v > Nat.pow 2 31 then .error .outOfRange else .ok (-(v : Int), r)
  | '+' :: rest => do
    let (v, r) ← scanNumber 1 rest.length rest
    if v ≥ Nat.pow 2 31 then .error .outOfRange else .ok ((v : Int), r)
  | _ => do
    let (v, r) ← scanNumber 1 4 s
    .ok ((v : Int), r)

/-- A two-digit field after optional blanks, checked against its range. -/
def scanField (lo hi : Nat) : Scan Nat := fun s => do
  let (v, r) ← scanNumber 1 2 (Text.dropBlank s)
  let v ← inRange v lo hi
  .ok (v, r)

/-- A separator after optional blanks. -/
def scanSeparator (c : Char) : Scan Unit := fun s => scanLiteral [c] (Text.dropBlank s)

/-- An optional fraction of a second: up to nine digits scaled to nanoseconds, later digits
dropped. -/
def scanFraction : Scan Nat := fun s =>
  match s with
  | '.' :: rest => do
    let (v, r) ← scanNumber 1 9 rest
    let taken := rest.length - r.length
    let r := r.dropWhile Char.isDigit
    .ok (v * Nat.pow 10 (9 - taken), r)
  | _ => .ok (0, s)

/-- The first two bytes of a text, as characters: a character of two or more bytes stands for
both of its first bytes, none of which is an ASCII digit. `none` under two bytes. -/
def firstTwoBytes : List Char → Option (Char × Char)
  | a :: rest =>
    if a.utf8Size ≥ 2 then some (a, a)
    else match rest with
      | b :: _ => some (a, b)
      | [] => none
  | [] => none

/-- The value of two ASCII digits. -/
def twoDigits (a b : Char) : Nat := (a.toNat - 48) * 10 + (b.toNat - 48)

/-- An offset east of UTC in seconds: `Z`, `z`, or a sign, two hour digits, optional colons or
blanks, and two minute digits. The hours may reach 99 here; the range is checked later. -/
def scanOffset : Scan Int := fun s =>
  match s with
  | 'Z' :: rest => .ok (0, rest)
  | 'z' :: rest => .ok (0, rest)
  | c :: rest =>
    if c = '+' ∨ c = '-' ∨ c = '−' then
      match firstTwoBytes rest with
      | none => .error .tooShort
      | some (h1, h2) =>
        if !(h1.isDigit && h2.isDigit) then .error .invalid
        else
          let r := (rest.drop 2).dropWhile fun x => x = ':' || Text.isBlank x
          match firstTwoBytes r with
          | none => .error .tooShort
          | some (m1, m2) =>
            if '0' ≤ m1 ∧ m1 ≤ '5' ∧ m2.isDigit then
              let secs := twoDigits h1 h2 * 3600 + twoDigits m1 m2 * 60
              .ok (if c = '+' then (secs : Int) else -(secs : Int), r.drop 2)
            else if '6' ≤ m1 ∧ m1 ≤ '9' ∧ m2.isDigit then .error .outOfRange
            else .error .invalid
    else .error .invalid
  | [] => .error .tooShort

/-- The fields of a timestamp text before they are checked together. -/
structure Fields where
  year : Int
  month : Nat
  day : Nat
  hour : Nat
  minute : Nat
  second : Nat
  nanos : Nat
  offset : Int

/-- Reads the fields of a timestamp; only blanks may follow. -/
def scanFields (s : List Char) : Except TimeFault Fields := do
  let (year, s) ← scanYear s
  let ((), s) ← scanSeparator '-' s
  let (month, s) ← scanField 1 12 s
  let ((), s) ← scanSeparator '-' s
  let (day, s) ← scanField 1 31 s
  let s ← match s with
    | c :: rest => if c = 'T' ∨ c = 't' ∨ c = ' ' then pure rest else .error .invalid
    | [] => .error .tooShort
  let (hour, s) ← scanField 0 23 s
  let ((), s) ← scanSeparator ':' s
  let (minute, s) ← scanField 0 59 s
  let ((), s) ← scanSeparator ':' s
  let (second, s) ← scanField 0 60 s
  let (nanos, s) ← scanFraction s
  let s := Text.dropBlank s
  let (offset, s) ← match s with
    | a :: b :: c :: rest =>
      if a.toUpper = 'U' ∧ b.toUpper = 'T' ∧ c.toUpper = 'C' then pure (0, rest) else scanOffset s
    | _ => scanOffset s
  if (Text.dropBlank s).isEmpty then .ok ⟨year, month, day, hour, minute, second, nanos, offset⟩
  else .error .tooLong

/-- Checks the fields together and moves the instant to UTC. A second of 60 is a leap second.
The date must exist within the calendar and the offset must be under a day, both out of range
otherwise; a date and time that leaves the calendar when moved to UTC matches no instant. -/
def Fields.toInstant (f : Fields) : Except TimeFault Instant := do
  if f.year < minYear ∨ maxYear < f.year ∨ f.day > daysInMonth f.year f.month then
    throw .outOfRange
  if f.offset ≤ -86400 ∨ 86400 ≤ f.offset then throw .outOfRange
  let (second, nanos) := if f.second = 60 then (59, f.nanos + 1000000000) else (f.second, f.nanos)
  let wall := Instant.ofParts f.year f.month f.day f.hour f.minute second nanos
  let shifted : Int := (wall.second : Int) - f.offset
  let dayShift := if shifted < 0 then -1 else if shifted ≥ 86400 then 1 else 0
  let t : Instant := ⟨wall.day + dayShift, (shifted - dayShift * 86400).toNat, wall.nanos⟩
  let (y, _, _) := civilFromDays t.day
  if y < minYear ∨ maxYear < y then throw .impossible
  return t

/-- Reads an RFC 3339 timestamp leniently. -/
def Instant.parse (s : String) : Except TimeFault Instant := do
  (← scanFields s.toList).toInstant

end EntityLog.Time
