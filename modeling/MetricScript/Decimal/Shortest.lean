import MetricScript.Decimal.Binary
import MetricScript.Decimal.Basic

/-!
The shortest decimal that reads back as a given double: among the powers of ten whose multiples
reach the interval of reals that round to the double, the largest one counts, and on its grid the
point nearest to the double.
-/

namespace MetricScript.Decimal

/-- A double with the interval of reals that round to it, over one denominator. The ends belong to
the interval exactly if `closed`. -/
structure Interval where
  low : Nat
  value : Nat
  high : Nat
  denominator : Nat
  closed : Bool

/-- The interval of a positive double. It reaches half a unit to both sides, but only a quarter
downwards from a power of two, below which doubles lie twice as close. -/
def Interval.ofBinary (b : Binary) : Interval :=
  let scale := Nat.pow 2 b.exponent.toNat
  let down := if b.mantissa = Binary.hiddenBit ∧ -1074 < b.exponent then 1 else 2
  { low := (4 * b.mantissa - down) * scale
    value := 4 * b.mantissa * scale
    high := (4 * b.mantissa + 2) * scale
    denominator := 4 * Nat.pow 2 (-b.exponent).toNat
    closed := b.mantissa % 2 = 0 }

/-- The multiple of `10 ^ k` that lies in the interval and is nearest to the value, as a multiplier;
of two equally near the larger. Only the two neighbours of the value need a look: if any multiple
lies in the interval then one of them does. -/
def Interval.onGrid? (i : Interval) (k : Int) : Option Nat :=
  let up := Nat.pow 10 (-k).toNat
  let unit := i.denominator * Nat.pow 10 k.toNat
  let low := i.low * up
  let value := i.value * up
  let high := i.high * up
  let inside (n : Nat) : Bool :=
    if i.closed then low ≤ n * unit && n * unit ≤ high else low < n * unit && n * unit < high
  let below := value / unit
  let above := below + 1
  match inside below, inside above with
  | true, true => some (if 2 * value < (below + above) * unit then below else above)
  | true, false => some below
  | false, true => some above
  | false, false => none

/-- The first grid with a point in the interval, at or below `10 ^ k`, in at most `steps` steps. -/
def Interval.coarsest (i : Interval) : (steps : Nat) → (k : Int) → Nat × Int
  | 0, k => ((i.onGrid? k).getD 0, k)
  | steps + 1, k =>
    match i.onGrid? k with
    | some n => (n, k)
    | none => i.coarsest steps (k - 1)

/-- An exponent `e` with `value ≤ 10 ^ e`, too large by at most one. -/
def Interval.decimalExponent (i : Interval) : Int :=
  if i.denominator ≤ i.value then digitCount (i.value / i.denominator)
  else 1 - digitCount (i.denominator / i.value)

/-- The shortest decimal that reads back as the finite double `x`. -/
def ofFloat (x : Float) : Decimal :=
  let b := Binary.ofFloat x
  if b.mantissa = 0 then ⟨Binary.isNegative x, 0, 0⟩
  else
    let i := Interval.ofBinary b
    let (digits, exponent) := i.coarsest 20 i.decimalExponent
    ⟨Binary.isNegative x, digits, exponent⟩

end MetricScript.Decimal
