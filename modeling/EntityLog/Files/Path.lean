/-!
# Paths

Paths are texts split at `/`. A path that starts with `/` has a root; a leading `.` segment is
kept as the current directory; empty and other `.` segments do not count; `..` is the parent
directory and any other segment is a name.

The last segment is the file name when it is a name. The parent is the text without its last
segment and without the separators and `.` segments that end it, the root kept. Setting a file
name first cuts the old one off (when there is one), then joins the new one.
-/

namespace EntityLog.Files

/-- A path as text. -/
abbrev Path := String

namespace Path

/-- The length of the root and of a leading current-directory segment, which are kept when the
end of a path is trimmed. -/
def headLength (cs : List Char) : Nat :=
  match cs with
  | '/' :: _ => 1
  | ['.'] => 1
  | '.' :: '/' :: _ => 1
  | _ => 0

/-- Drops separators and `.` segments at the end of a character list. -/
def trimEnd (cs : List Char) : List Char :=
  let rev := cs.reverse
  let rec go : List Char → (fuel : Nat) → List Char
    | r, 0 => r
    | '/' :: rest, fuel + 1 => go rest fuel
    | '.' :: '/' :: rest, fuel + 1 => go rest fuel
    | ['.'], _ + 1 => []
    | r, _ + 1 => r
  (go rev (cs.length + 1)).reverse

/-- The body after the head, trimmed at its end. -/
def body (p : Path) : List Char :=
  let cs := p.toList
  trimEnd (cs.drop (headLength cs))

/-- The last segment of the body and the body before it. -/
def lastSegment (p : Path) : Option (List Char × List Char) :=
  let b := body p
  if b.isEmpty then none
  else
    let seg := (b.reverse.takeWhile (· != '/')).reverse
    some (seg, b.take (b.length - seg.length))

/-- The file name: the last segment when it is a name. -/
def fileName (p : Path) : Option String :=
  match lastSegment p with
  | some (seg, _) => if seg == ['.', '.'] then none else some (String.ofList seg)
  | none => none

/-- The parent: `none` for a path that is only a root or empty. -/
def parent (p : Path) : Option Path :=
  let cs := p.toList
  let head := cs.take (headLength cs)
  match lastSegment p with
  | some (_, before) => some (String.ofList (head ++ trimEnd before))
  | none => if head == ['.'] then some "" else none

/-- Joins a relative path with a separator; an absolute one replaces the base. -/
def join (base : Path) (p : Path) : Path :=
  if p.startsWith "/" then p
  else if base.isEmpty || base.endsWith "/" then base ++ p
  else base ++ "/" ++ p

/-- Replaces the file name (or adds one when there is none). -/
def withFileName (p : Path) (name : String) : Path :=
  match fileName p with
  | some _ => join ((parent p).getD "") name
  | none => join p name

/-- Whether a path ends in a separator, which makes it name a directory. -/
def endsInSeparator (p : Path) : Bool := p.endsWith "/"

/-- Whether the path has a root. -/
def isAbsolute (p : Path) : Bool := p.startsWith "/"

/-- The segments that locate the path from the root: names and `..`, in order. -/
def segments (p : Path) : List String :=
  (p.splitOn "/").filter fun s => !s.isEmpty && s != "."

end Path

end EntityLog.Files
