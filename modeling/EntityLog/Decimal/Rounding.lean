import EntityLog.Decimal.Shortest
/-!
# The double nearest to a rational number

Reading a decimal needs the double nearest to `num / den`, ties to the even mantissa. The
exponent of the last mantissa bit is fixed first: 52 below the leading bit, but never below the
smallest subnormal unit `2 ^ -1074`. The quotient in that unit is rounded once, in exact
arithmetic, and scaled into place; a result of `2 ^ 1024` or more is infinite.
-/

namespace EntityLog.Decimal

/-- The largest `e` with `2 ^ e ≤ r`, for a positive ratio. -/
def floorLog2 (r : Ratio) : Int :=
  let t : Int := (Nat.log2 r.num : Int) - (Nat.log2 r.den : Int)
  if (Ratio.ofBinary 1 t).le r then t else t - 1

/-- `num / den` rounded to the nearest natural number, a tie going to the even one. -/
def roundHalfEven (num den : Nat) : Nat :=
  let q := num / den
  let r := num % den
  if 2 * r < den then q
  else if 2 * r > den then q + 1
  else if q % 2 == 0 then q else q + 1

/-- The double nearest to a non-negative ratio with a positive denominator. -/
def Ratio.toFloat (r : Ratio) : Float :=
  if r.num = 0 then 0.0
  else
    let unit : Int := max (floorLog2 r - 52) (-1074)
    -- r / 2^unit as a ratio of naturals
    let scaled : Ratio :=
      if 0 ≤ unit then ⟨r.num, r.den * Nat.pow 2 unit.toNat⟩ else ⟨r.num * Nat.pow 2 (-unit).toNat, r.den⟩
    let m := roundHalfEven scaled.num scaled.den
    if unit + (Nat.log2 m : Int) ≥ 1024 then Float.ofBits 0x7FF0000000000000
    else (Float.ofNat m).scaleB unit

/-- The double nearest to `digits · 10 ^ exponent`. -/
def Digits.toFloat (d : Digits) : Float := (Ratio.ofDecimal d.digits d.exponent).toFloat

end EntityLog.Decimal
