/-!
# Quoted JSON strings

A string is written between double quotes. The quote and the backslash are escaped with a
backslash, the control characters with a short escape when there is one (`\n`, `\t`, `\r`, `\b`,
`\f`) and as `\u00XX` with lowercase hex digits otherwise. Every other character, `/` and all of
non-ASCII included, is written as it is.
-/

namespace EntityLog.Json

/-- A lowercase hexadecimal digit. -/
def hexDigit (n : Nat) : Char :=
  if n < 10 then Char.ofNat (48 + n) else Char.ofNat (87 + n)

/-- The characters that stand for one character inside a quoted string. -/
def escapeChar (c : Char) : List Char :=
  if c = '"' then ['\\', '"']
  else if c = '\\' then ['\\', '\\']
  else if c = '\n' then ['\\', 'n']
  else if c = '\t' then ['\\', 't']
  else if c = '\r' then ['\\', 'r']
  else if c.toNat = 8 then ['\\', 'b']
  else if c.toNat = 12 then ['\\', 'f']
  else if c.toNat < 0x20 then
    ['\\', 'u', '0', '0', hexDigit (c.toNat / 16), hexDigit (c.toNat % 16)]
  else [c]

/-- The body of a quoted string, without the quotes. -/
def escapeBody (cs : List Char) : List Char := cs.flatMap escapeChar

/-- A string between double quotes, escaped. -/
def quote (s : String) : String :=
  "\"" ++ String.ofList (escapeBody s.toList) ++ "\""

end EntityLog.Json
