import MetricScript.Decimal.Shortest

/-!
The text of a number in a message: the fewest digits that read back, always positional, with a point
only in front of a fraction. `NaN` and `inf` are words, and zero keeps its sign.
-/

namespace MetricScript.Decimal

def digitsOf (n : Nat) : List Char :=
  Nat.toDigits 10 n

/-- The magnitude in positional notation, without zeros at the end of a fraction. -/
def positional (d : Decimal) : List Char :=
  if 0 ≤ d.exponent then
    digitsOf (d.digits * Nat.pow 10 d.exponent.toNat)
  else
    let places := (-d.exponent).toNat
    let unit := Nat.pow 10 places
    let fraction := digitsOf (d.digits % unit)
    let padded := List.replicate (places - fraction.length) '0' ++ fraction
    match (padded.reverse.dropWhile (· = '0')).reverse with
    | [] => digitsOf (d.digits / unit)
    | kept => digitsOf (d.digits / unit) ++ '.' :: kept

/-- The text of a double in a message. -/
def plain (x : Float) : String :=
  if x.isNaN then "NaN"
  else
    let sign := if Binary.isNegative x then "-" else ""
    if x.isFinite then sign ++ String.ofList (ofFloat x).positional else sign ++ "inf"

end MetricScript.Decimal
