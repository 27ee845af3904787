/-!
# Record ids

A record id is a 128-bit UUID. It is written as 32 lowercase hexadecimal digits in groups of
8-4-4-4-12 joined by hyphens. It is read in that form with digits of either case, as 32 digits
without hyphens, between braces, or after the prefix `urn:uuid:`.
-/

namespace EntityLog.Record

/-- A 128-bit record id. -/
structure RecordId where
  bits : Nat
  deriving Repr, BEq, DecidableEq

/-- The value of a hexadecimal digit of either case. -/
def hexDigitValue (c : Char) : Option Nat :=
  if '0' ≤ c ∧ c ≤ '9' then some (c.toNat - 48)
  else if 'a' ≤ c ∧ c ≤ 'f' then some (c.toNat - 87)
  else if 'A' ≤ c ∧ c ≤ 'F' then some (c.toNat - 55)
  else none

/-- The number spelled by hexadecimal digits, if they all are digits. -/
def hexNumber (cs : List Char) : Option Nat :=
  cs.foldlM (fun acc c => (hexDigitValue c).map fun d => acc * 16 + d) 0

/-- `n` as exactly `width` lowercase hexadecimal digits. -/
def hexFixed (width n : Nat) : String :=
  let digits := Nat.toDigits 16 n
  String.ofList (List.replicate (width - digits.length) '0' ++ digits)

/-- The hyphenated lowercase form. -/
def RecordId.render (id : RecordId) : String :=
  let h := hexFixed 32 id.bits
  let part (a b : Nat) := String.ofList ((h.toList.drop a).take (b - a))
  part 0 8 ++ "-" ++ part 8 12 ++ "-" ++ part 12 16 ++ "-" ++ part 16 20 ++ "-" ++ part 20 32

/-- The id whose last 48 bits are `n`, in the version 4 layout used for numbered test records:
`00000000-0000-4000-8000-` followed by `n` in twelve hex digits. -/
def RecordId.numbered (n : Nat) : RecordId :=
  ⟨0x40008000 * Nat.pow 2 48 + n % Nat.pow 2 48⟩

/-- The version 4 id made from random bits: the version nibble is set to 4 and the two variant
bits to `10`, and the other 122 bits come from the low bits of `random`. -/
def RecordId.version4 (random : Nat) : RecordId :=
  let bits := random % Nat.pow 2 128
  let high := bits / Nat.pow 2 64
  let low := bits % Nat.pow 2 64
  let high := high / Nat.pow 2 16 * Nat.pow 2 16 + 0x4000 + high % Nat.pow 2 12
  let low := Nat.pow 2 63 + low % Nat.pow 2 62
  ⟨high * Nat.pow 2 64 + low⟩

/-- Why a text is not a record id. -/
inductive IdFault where
  | character (c : Char) (index : Nat)
  | length (n : Nat)
  | groupCount (n : Nat)
  | groupLength (group expected found : Nat)
  deriving Repr, BEq

/-- The message of a refusal. -/
def IdFault.text : IdFault → String
  | .character c i => "invalid character: found `" ++ String.singleton c ++ "` at " ++ toString i
  | .length n => "invalid length: found " ++ toString n
  | .groupCount n => "invalid group count: expected 5, found " ++ toString n
  | .groupLength g e f =>
    "invalid group length in group " ++ toString g ++ ": expected " ++ toString e ++ ", found " ++
      toString f

/-- The hyphenated form: five groups of 8, 4, 4, 4 and 12 digits. -/
def parseHyphenated (cs : List Char) : Option Nat :=
  match cs.splitOn '-' with
  | [a, b, c, d, e] =>
    if a.length == 8 && b.length == 4 && c.length == 4 && d.length == 4 && e.length == 12 then
      hexNumber (a ++ b ++ c ++ d ++ e)
    else none
  | _ => none

/-- Whether a text starts with the prefix `urn:uuid:`, in either case. -/
def hasUrnPrefix (cs : List Char) : Bool :=
  (cs.take 9).map Char.toLower == "urn:uuid:".toList

/-- The form inside the wrappers: the body, the length of the prefix, and whether it is bare. -/
def unwrap (cs : List Char) : List Char × Nat × Bool :=
  if cs.head? == some '{' && cs.getLast? == some '}' && cs.length ≥ 2 then
    ((cs.drop 1).dropLast, 1, false)
  else if hasUrnPrefix cs then (cs.drop 9, 9, false)
  else (cs, 0, true)

/-- Where each group of the hyphenated form starts, paired with where the next one starts. -/
def groupBounds : List (Nat × Nat) := [(0, 9), (9, 14), (14, 19), (19, 24)]

/-- The digits each group of the hyphenated form holds. -/
def groupSizes : List Nat := [8, 4, 4, 4, 12]

/-- Explains why a text is not a record id. A text longer than the longest form is refused for
its length alone. Otherwise the first character that is neither a hexadecimal digit nor a hyphen
is named; then a bare text without hyphens is refused for its length, a text without exactly four
hyphens for its group count, and else the first of the first four groups that ends in the wrong
place, with its length counted from where it should start. When those four end in place, the last
group is named, with the length of the whole text less 24. -/
def explain (s : String) : IdFault :=
  let n := s.utf8ByteSize
  if n > 45 then .length n
  else
    let (body, offset, bare) := unwrap s.toList
    let indexed := (body.zip (List.range body.length))
    let byteIndex (i : Nat) : Nat := offset + (String.ofList (body.take i)).utf8ByteSize
    match indexed.find? (fun (c, _) => c != '-' && (hexDigitValue c).isNone) with
    | some (c, i) => .character c (byteIndex i)
    | none =>
      let hyphens := indexed.filterMap fun (c, i) => if c = '-' then some i else none
      if hyphens.isEmpty && bare then .length n
      else if hyphens.length != 4 then .groupCount (hyphens.length + 1)
      else
        let checks := (hyphens.zip groupBounds).zip (List.range 4)
        match checks.find? (fun ((h, _, next), _) => h + 1 != next) with
        | some ((h, start, _), i) => .groupLength i (groupSizes.getD i 0) (h - start)
        | none => .groupLength 4 12 (n - 24)

/-- Reads a record id. -/
def RecordId.parse (s : String) : Except IdFault RecordId :=
  let cs := s.toList
  let n := s.utf8ByteSize
  let found : Option Nat :=
    if n == 32 then hexNumber cs
    else if n == 36 then parseHyphenated cs
    else if n == 38 && cs.head? == some '{' && cs.getLast? == some '}' then
      parseHyphenated ((cs.drop 1).dropLast)
    else if n == 45 && hasUrnPrefix cs then parseHyphenated (cs.drop 9)
    else none
  match found with
  | some bits => .ok ⟨bits⟩
  | none => .error (explain s)

end EntityLog.Record
