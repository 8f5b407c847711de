/-! The exact value of a finite double: a sign and a magnitude `mantissa * 2 ^ exponent`. -/

namespace MetricScript

/-- The magnitude of a finite double, `mantissa * 2 ^ exponent`. -/
structure Binary where
  mantissa : Nat
  exponent : Int
  deriving DecidableEq, Repr

namespace Binary

/-- The bit that the encoding of a double leaves out, `2 ^ 52`: mantissas of normal doubles have
it. -/
def hiddenBit : Nat := 0x10000000000000

/-- The bit for the sign of a double, `2 ^ 63`. -/
def signBit : Nat := 0x8000000000000000

/-- Magnitude of a double. The answer means nothing for NaN and the infinities. -/
def ofFloat (x : Float) : Binary :=
  let bits := x.toBits.toNat
  let fraction := bits % hiddenBit
  let biased : Nat := bits / hiddenBit % 0x800
  if biased = 0 then ⟨fraction, -1074⟩ else ⟨hiddenBit + fraction, (biased : Int) - 1075⟩

/-- Whether the sign bit is set, as it is for `-0.0`. -/
def isNegative (x : Float) : Bool :=
  signBit ≤ x.toBits.toNat

/-- The magnitude as a natural number, if it is one. -/
def whole? (b : Binary) : Option Nat :=
  if 0 ≤ b.exponent then
    some (b.mantissa * Nat.pow 2 b.exponent.toNat)
  else
    let unit := Nat.pow 2 (-b.exponent).toNat
    if b.mantissa % unit = 0 then some (b.mantissa / unit) else none

end Binary

/-- The magnitude of a double as a natural number; none for NaN, infinities and fractions. -/
def wholeMagnitude? (x : Float) : Option Nat :=
  if x.isFinite then (Binary.ofFloat x).whole? else none

end MetricScript
