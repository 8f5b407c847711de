import MetricScript.Decimal.Basic

/-!
Numbers as they are written: a sign, digits before and after the point, an exponent. A numeral has
two readings as a double. `nearest` rounds the number once. `quick` keeps the digits that fit a
64-bit word and scales that word by a power of ten, which rounds at each step; it can miss the
nearest double by a few units in the last place.
-/

namespace MetricScript

/-- A number as it is written. -/
structure Numeral where
  negative : Bool
  whole : List Char
  fraction : List Char
  exponent : Int
  deriving DecidableEq, Repr

namespace Decimal

/-- The number that a row of digits denotes behind the digits of another number. -/
def appendDigits (n : Nat) (cs : List Char) : Nat :=
  cs.foldl (fun n c => 10 * n + (c.toNat - '0'.toNat)) n

/-- The number that a row of decimal digits denotes. -/
def digitValue (cs : List Char) : Nat :=
  appendDigits 0 cs

/-- The largest number of an unsigned 64-bit word. -/
def wordMax : Nat := 0xffffffffffffffff

/-- Appends digits to a number up to the first one that would take it beyond `wordMax`. Gives the
number and the digits from that one on. -/
def appendFitting (n : Nat) : List Char → Nat × List Char
  | [] => (n, [])
  | c :: rest =>
    if appendDigits n [c] ≤ wordMax then appendFitting (appendDigits n [c]) rest else (n, c :: rest)

end Decimal

namespace Numeral

/-! ### One rounding -/

/-- The number that a numeral denotes. -/
def decimal (n : Numeral) : Decimal :=
  ⟨n.negative, Decimal.digitValue (n.whole ++ n.fraction), n.exponent - n.fraction.length⟩

/-- The double nearest to the number; an infinity if it is too large. -/
def nearest (n : Numeral) : Float :=
  n.decimal.toFloat

/-! ### A rounding at each step -/

/-- The leading digits as a word, and the power of ten to scale it by. A digit before the point that
is left over counts for its place; digits after the point are tried anew, and those left over count
for nothing. -/
def scaledWord (n : Numeral) : Nat × Int :=
  let (word, left) := Decimal.appendFitting 0 n.whole
  let (word, unused) := Decimal.appendFitting word n.fraction
  (word, left.length + unused.length - n.fraction.length + n.exponent)

/-- The largest power of ten that a double holds. -/
def maxPower : Nat := 308

/-- The double nearest to a power of ten. -/
def powerOfTen (k : Nat) : Float :=
  Float.ofScientific 1 false k

/-- A word times a power of ten. The word, the power, and each product or quotient are rounded. A
product by more than `10 ^ maxPower` is an infinity. A quotient by more takes two steps, and two full
steps leave nothing of a word. -/
def scaleWord (word : Nat) (exponent : Int) : Float :=
  let x := Float.ofScientific word false 0
  let k := exponent.natAbs
  if word = 0 then 0
  else if 0 ≤ exponent then
    if k ≤ maxPower then x * powerOfTen k else 1.0 / 0.0
  else if k ≤ maxPower then x / powerOfTen k
  else if k ≤ 2 * maxPower then x / powerOfTen maxPower / powerOfTen (k - maxPower)
  else 0

/-- The scaled word as a double; an infinity if it is too large. -/
def quick (n : Numeral) : Float :=
  let x := scaleWord n.scaledWord.1 n.scaledWord.2
  if n.negative then -x else x

end Numeral

end MetricScript
