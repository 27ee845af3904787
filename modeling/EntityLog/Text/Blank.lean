/-!
# Blank characters

The characters with the Unicode `White_Space` property, and the trim that removes them from both
ends of a text. Entity names and ids, operation aliases and request lines count as blank exactly
when nothing is left after this trim.
-/

namespace EntityLog.Text

/-- A character is blank when it has the Unicode `White_Space` property: tab, line feed, vertical
tab, form feed, carriage return, space, next line, no-break space, ogham space mark, the spaces
from en quad to hair space, the line and paragraph separators, the narrow no-break space, the
medium mathematical space and the ideographic space. -/
def isBlank (c : Char) : Bool :=
  let n := c.toNat
  (0x09 ≤ n && n ≤ 0x0D) || n == 0x20 || n == 0x85 || n == 0xA0 || n == 0x1680 ||
    (0x2000 ≤ n && n ≤ 0x200A) || n == 0x2028 || n == 0x2029 || n == 0x202F ||
    n == 0x205F || n == 0x3000

/-- Drops the blank characters at the front of a character list. -/
def dropBlank (cs : List Char) : List Char := cs.dropWhile isBlank

/-- Removes the blank characters at both ends of a text. -/
def trimBlank (s : String) : String :=
  String.ofList (dropBlank (dropBlank s.toList).reverse).reverse

/-- Removes the blank characters at the front of a text. -/
def trimBlankStart (s : String) : String :=
  String.ofList (dropBlank s.toList)

/-- A text is blank when every character of it is blank. -/
def IsBlankText (s : String) : Bool := s.toList.all isBlank

example : isBlank '　' = true ∧ isBlank '​' = false ∧ isBlank ' ' = true := by
  decide

end EntityLog.Text
