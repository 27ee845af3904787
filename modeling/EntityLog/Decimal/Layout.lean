import EntityLog.Decimal.Shortest
/-!
# Writing decimal digits

A `Layout` says how digits and an exponent become text: for which positions of the decimal point
the number is written out in full, how an exponent is marked, and whether a whole number keeps a
point and a zero. The digits themselves come from the shortest form of a double.
-/

namespace EntityLog.Decimal

/-- How a number with known digits is written. The point position `p` is the number of digits
before the decimal point (`p = 3` for `123.4`, `p = -1` for `0.01`). -/
structure Layout where
  /-- Positional notation needs `lowest < p`; `none` puts no bound on this side. -/
  lowest : Option Int
  /-- Positional notation needs `p ≤ highest`; `none` puts no bound on this side. -/
  highest : Option Int
  /-- The mark written before a non-negative exponent in scientific notation. -/
  plusMark : String
  /-- A whole number written positionally ends in `.0`. -/
  pointZero : Bool

/-- `n` zero characters. -/
def zeros (n : Nat) : String := String.ofList (List.replicate n '0')

/-- The decimal text of a natural number. -/
def natText (n : Nat) : String := String.ofList (Nat.toDigits 10 n)

/-- Whether the point position allows positional notation. -/
def Layout.positional (l : Layout) (p : Int) : Bool :=
  (match l.lowest with | some lo => decide (lo < p) | none => true) &&
    (match l.highest with | some hi => decide (p ≤ hi) | none => true)

/-- Writes the digits `d` (without trailing zeros, or the single digit `0`) times `10 ^ k`. -/
def Layout.render (l : Layout) (negative : Bool) (d : Digits) : String :=
  let ds := (Nat.toDigits 10 d.digits)
  let n := ds.length
  let k := d.exponent
  let p : Int := n + k
  let body :=
    if l.positional p then
      if 0 ≤ k then
        String.ofList ds ++ zeros k.toNat ++ (if l.pointZero then ".0" else "")
      else if 0 < p then
        String.ofList (ds.take p.toNat) ++ "." ++ String.ofList (ds.drop p.toNat)
      else
        "0." ++ zeros (-p).toNat ++ String.ofList ds
    else
      let e := p - 1
      let mantissa :=
        match ds with
        | [] => "0"
        | [c] => String.singleton c
        | c :: rest => String.singleton c ++ "." ++ String.ofList rest
      let mark := if 0 ≤ e then l.plusMark else "-"
      mantissa ++ "e" ++ mark ++ natText e.natAbs
  (if negative then "-" else "") ++ body

/-- Numbers written out in full, whole numbers with a point and a zero. -/
def plainLayout : Layout := ⟨none, none, "", true⟩

/-- The full positional text of a double (`100000000000000000000.0`, `0.001`), with `inf`,
`-inf` and `NaN` for the values that have no digits. -/
def plainText (f : Float) : String :=
  match Binary.ofFloat f with
  | .nan => "NaN"
  | .infinite negative => if negative then "-inf" else "inf"
  | b =>
    match b.shortest with
    | some (negative, d) => plainLayout.render negative d
    | none => "NaN"

end EntityLog.Decimal
