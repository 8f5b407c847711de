/-! Decimal numbers with finitely many digits, and the double nearest to one. -/

namespace MetricScript

/-- The number `digits * 10 ^ exponent`, negated if `negative`; zero keeps its sign. -/
structure Decimal where
  negative : Bool
  digits : Nat
  exponent : Int
  deriving DecidableEq, Repr

namespace Decimal

/-- How many decimal digits a natural number has; zero has one. -/
def digitCount (n : Nat) : Nat :=
  (Nat.toDigits 10 n).length

/-- The double nearest to the magnitude, ties to even. Exponents far outside the range of a double
are settled before any power of ten is formed: from `10 ^ 310` on every number overflows, and below
`10 ^ (-330)` every number rounds to zero. -/
def magnitude (d : Decimal) : Float :=
  if d.digits = 0 then 0
  else if 310 < d.exponent then 1.0 / 0.0
  else if d.exponent + digitCount d.digits < -330 then 0
  else Float.ofScientific d.digits (decide (d.exponent < 0)) d.exponent.natAbs

/-- The double nearest to the number; an infinity if it is too large. -/
def toFloat (d : Decimal) : Float :=
  if d.negative then -d.magnitude else d.magnitude

end Decimal

end MetricScript
