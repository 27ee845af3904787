/-!
# Similarity of names

The Jaro similarity of two words, used to suggest a known name for a mistyped one. Characters
match when they are equal and close enough (within half the longer length, less one); the score
averages the matched share of each word and the share of matches that are in the same order.
-/

namespace EntityLog.Text

/-- Marks the characters of `b` matched by the characters of `a`, in order: each character of
`a` takes the first unmatched equal character of `b` in its window. Returns the flags of `a`,
the flags of `b` and the number of matches. -/
def jaroMatches (a b : List Char) (window : Nat) : List Bool × List Bool × Nat :=
  a.zipIdx.foldl (fun (fa, fb, m) (c, i) =>
    let lo := i - window
    let hi := min b.length (i + window + 1)
    match (List.range' lo (hi - lo)).find? (fun j => b[j]? == some c && fb[j]? == some false) with
    | some j => (fa ++ [true], fb.set j true, m + 1)
    | none => (fa ++ [false], fb, m)) ([], List.replicate b.length false, 0)

/-- The characters whose flag is set, in order. -/
def flagged (cs : List Char) (flags : List Bool) : List Char :=
  (cs.zip flags).filterMap fun (c, f) => if f then some c else none

/-- The Jaro similarity of two words, between 0 and 1. -/
def jaro (a b : List Char) : Float :=
  if a.isEmpty && b.isEmpty then 1.0
  else if a.isEmpty || b.isEmpty then 0.0
  else
    let window := max a.length b.length / 2 - 1
    let (fa, fb, m) := jaroMatches a b window
    let transposed := (((flagged a fa).zip (flagged b fb)).filter fun (x, y) => x != y).length / 2
    if m = 0 then 0.0
    else
      (m.toFloat / a.length.toFloat + m.toFloat / b.length.toFloat +
        (m - transposed).toFloat / m.toFloat) / 3.0

/-- The known name most similar to `word` with a similarity above 0.7; among equally similar
names the last one. -/
def closestName (word : String) (names : List String) : Option String :=
  let scored := names.filterMap fun n =>
    let s := jaro word.toList n.toList
    if s > 0.7 then some (s, n) else none
  (scored.foldl (fun best (s, n) =>
    match best with
    | some (bs, _) => if s ≥ bs then some (s, n) else best
    | none => some (s, n)) none).map (·.2)

end EntityLog.Text
