import MetricScript.Decimal.Numeral
import MetricScript.Text.Fold

/-!
Reading numbers. Two grammars: the number literal of a script, which admits a sign, a missing digit
run on one side of the point, and the words for infinity and not-a-number; and the position in a
list, a row of digits with an optional plus sign.
-/

namespace MetricScript.Decimal

/-- Splits off the digits `0` to `9` at the start of a text. -/
def spanDigits (cs : List Char) : List Char × List Char :=
  (cs.takeWhile Char.isDigit, cs.dropWhile Char.isDigit)

/-- Splits off one sign, saying whether it was a minus. -/
def spanSign : List Char → Bool × List Char
  | '-' :: rest => (true, rest)
  | '+' :: rest => (false, rest)
  | cs => (false, cs)

/-- Reads `e`, an optional sign and at least one digit; an empty text is the exponent zero. -/
def exponent? : List Char → Option Int
  | [] => some 0
  | c :: rest =>
    if c.toLower = 'e' then
      let (negative, unsigned) := spanSign rest
      let (digits, after) := spanDigits unsigned
      if digits.isEmpty || !after.isEmpty then none
      else some (if negative then -(digitValue digits : Int) else digitValue digits)
    else none

/-- Reads an unsigned number: digits with an optional point, at least one digit in all, and an
optional exponent. -/
def unsigned? (negative : Bool) (cs : List Char) : Option Numeral :=
  let (whole, rest) := spanDigits cs
  let (fraction, tail) :=
    match rest with
    | '.' :: afterPoint => spanDigits afterPoint
    | _ => ([], rest)
  if whole.isEmpty && fraction.isEmpty then none
  else (exponent? tail).map (⟨negative, whole, fraction, ·⟩)

/-- The value of a number literal, rounded once; none if the text is not one. -/
def literal? (text : String) : Option Float :=
  let (negative, cs) := spanSign text.toList
  let word := Text.lowerAscii (String.ofList cs)
  if word = "inf" || word = "infinity" then
    some (if negative then -(1.0 / 0.0) else 1.0 / 0.0)
  else if word = "nan" then
    some (0.0 / 0.0)
  else
    (unsigned? negative cs).map Numeral.nearest

/-- Reads a position in a list: digits after an optional plus sign, at most `wordMax`. -/
def position? (text : String) : Option Nat :=
  let digits :=
    match text.toList with
    | '+' :: rest => rest
    | cs => cs
  if digits.isEmpty || !digits.all Char.isDigit then none
  else
    let n := digitValue digits
    if n ≤ wordMax then some n else none

end MetricScript.Decimal
