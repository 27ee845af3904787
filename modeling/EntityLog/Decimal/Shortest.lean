/-!
# Shortest decimal digits of a double

A finite double is `m · 2^q`. The reals that round to it form an interval around it, with both
ends included exactly when `m` is even. The shortest decimal is found by trying grids of one, two,
… seventeen significant digits: only the two neighbours of the value on a grid can be the grid's
points nearest to it, and the first grid where one of them lies in the interval gives the digits.
Of two neighbours in the interval the nearer wins, and an exact tie goes to the even digit string.
-/

namespace EntityLog.Decimal

/-- The pieces of a double: its sign and, when it is finite, its exact binary value. -/
inductive Binary where
  /-- The value `mantissa · 2 ^ exponent`; `narrowBelow` says the gap to the next smaller double
  is half the gap to the next larger one. -/
  | finite (negative : Bool) (mantissa : Nat) (exponent : Int) (narrowBelow : Bool)
  | infinite (negative : Bool)
  | nan
  deriving Repr, BEq

/-- Splits the 64 bits of a double into sign, exponent field and fraction field. -/
def Binary.ofBits (bits : UInt64) : Binary :=
  let b := bits.toNat
  let negative := b / Nat.pow 2 63 % 2 == 1
  let field : Nat := b / Nat.pow 2 52 % Nat.pow 2 11
  let fraction : Nat := b % Nat.pow 2 52
  if field == 2047 then
    if fraction == 0 then .infinite negative else .nan
  else if field == 0 then
    .finite negative fraction (-1074) false
  else
    .finite negative (fraction + Nat.pow 2 52) ((field : Int) - 1075) (fraction == 0 && field > 1)

/-- The parts of a double. -/
def Binary.ofFloat (f : Float) : Binary := Binary.ofBits f.toBits

/-- A non-negative rational number as numerator and denominator. -/
structure Ratio where
  num : Nat
  den : Nat
  deriving Repr

/-- `x · 2 ^ e` as a ratio. -/
def Ratio.ofBinary (x : Nat) (e : Int) : Ratio :=
  if 0 ≤ e then ⟨x * Nat.pow 2 e.toNat, 1⟩ else ⟨x, Nat.pow 2 (-e).toNat⟩

/-- `c · 10 ^ k` as a ratio. -/
def Ratio.ofDecimal (c : Nat) (k : Int) : Ratio :=
  if 0 ≤ k then ⟨c * Nat.pow 10 k.toNat, 1⟩ else ⟨c, Nat.pow 10 (-k).toNat⟩

/-- Order of ratios with positive denominators. -/
def Ratio.le (a b : Ratio) : Bool := a.num * b.den ≤ b.num * a.den

/-- Strict order of ratios with positive denominators. -/
def Ratio.lt (a b : Ratio) : Bool := a.num * b.den < b.num * a.den

/-- The number of decimal digits of a natural number (one for zero). -/
def decimalLength (n : Nat) : Nat := (Nat.toDigits 10 n).length

/-- The largest `t` with `10 ^ t ≤ r`, for a positive ratio: it is one of two candidates read off
the digit counts of numerator and denominator. -/
def floorLog10 (r : Ratio) : Int :=
  let t : Int := (decimalLength r.num : Int) - (decimalLength r.den : Int)
  if (Ratio.ofDecimal 1 t).le r then t else t - 1

/-- Decimal digits and exponent: the number `digits · 10 ^ exponent`. -/
structure Digits where
  digits : Nat
  exponent : Int
  deriving Repr, BEq

/-- Removes trailing zero digits, raising the exponent to keep the value. -/
def Digits.trim (d : Digits) : Digits :=
  if h : d.digits ≠ 0 ∧ d.digits % 10 = 0 then
    Digits.trim ⟨d.digits / 10, d.exponent + 1⟩
  else d
termination_by d.digits
decreasing_by exact Nat.div_lt_self (Nat.pos_of_ne_zero h.1) (by decide)

/-- The rounding interval of `m · 2 ^ q` in units of `2 ^ (q - 2)`: the value is `4m`, the upper
end `4m + 2`, the lower end `4m - 2`, or `4m - 1` when the gap below is narrow. -/
structure Interval where
  low : Ratio
  value : Ratio
  high : Ratio
  closed : Bool

/-- The interval of reals that round to the positive double `m · 2 ^ q`. -/
def Interval.ofBinary (m : Nat) (q : Int) (narrowBelow : Bool) : Interval :=
  { low := Ratio.ofBinary (4 * m - (if narrowBelow then 1 else 2)) (q - 2)
    value := Ratio.ofBinary (4 * m) (q - 2)
    high := Ratio.ofBinary (4 * m + 2) (q - 2)
    closed := m % 2 == 0 }

/-- Whether a point lies in the interval. -/
def Interval.contains (i : Interval) (x : Ratio) : Bool :=
  if i.closed then i.low.le x && x.le i.high else i.low.lt x && x.lt i.high

/-- The choice on the grid `10 ^ k`: the neighbours `c` and `c + 1` of the value that lie in the
interval, the nearer of the two when both do, and the even one on an exact tie. -/
def pickOnGrid (i : Interval) (k : Int) : Option Nat :=
  let unit := Ratio.ofDecimal 1 k
  let c := (i.value.num * unit.den) / (i.value.den * unit.num)
  let lowIn := i.contains (Ratio.ofDecimal c k)
  let highIn := i.contains (Ratio.ofDecimal (c + 1) k)
  if lowIn && highIn then
    -- compare 2v with (2c + 1) · 10^k
    let twice : Ratio := ⟨2 * i.value.num, i.value.den⟩
    let middle := Ratio.ofDecimal (2 * c + 1) k
    if twice.lt middle then some c
    else if middle.lt twice then some (c + 1)
    else if c % 2 == 0 then some c else some (c + 1)
  else if lowIn then some c
  else if highIn then some (c + 1)
  else none

/-- Tries the grids of `n`, `n + 1`, … significant digits for a value whose leading digit has
weight `10 ^ top`; `fuel` bounds the number of grids. -/
def searchGrids (i : Interval) (top : Int) (n : Nat) : (fuel : Nat) → Option Digits
  | 0 => none
  | fuel + 1 =>
    let k := top - n + 1
    match pickOnGrid i k with
    | some c => some (Digits.trim ⟨c, k⟩)
    | none => searchGrids i top (n + 1) fuel

/-- The shortest digits of a positive double `m · 2 ^ q` that read back as it, the nearest to it
among those. Seventeen significant digits always suffice. -/
def shortestOf (m : Nat) (q : Int) (narrowBelow : Bool) : Digits :=
  let i := Interval.ofBinary m q narrowBelow
  match searchGrids i (floorLog10 i.value) 1 17 with
  | some d => d
  | none => ⟨m, 0⟩

/-- The sign and shortest digits of a finite double; zero has the digits `0`. -/
def Binary.shortest : Binary → Option (Bool × Digits)
  | .finite negative m q narrow =>
    if m = 0 then some (negative, ⟨0, 0⟩) else some (negative, shortestOf m q narrow)
  | _ => none



end EntityLog.Decimal
