import MetricScript.Script.Operator
import MetricScript.Value.Basic

/-!
The operators on values. Two series are combined on the union of their times, a series and another
operand point by point, two other operands at the present moment. Operands may be missing, and no
operator fails.
-/

namespace MetricScript

/-- An operand as an operator reads it. -/
inductive Reading where
  | series (s : Series)
  | constant (x : Option Float)

namespace Reading

/-- The reading of an arithmetic operand: a series or a number, nothing else. -/
def arithmetic? : Option Value → Option Reading
  | some (.series s) => some (.series s)
  | some (.scalar (.number x)) => some (.constant (some x))
  | _ => none

/-- The reading of a compared operand: a series, a number, a truth value as one or zero; anything
else has no value. -/
def compared : Option Value → Reading
  | some (.series s) => .series s
  | some (.scalar x) => .constant x.number?
  | _ => .constant none

/-- The reading of a logical operand: a series, or the truth of anything else. A missing operand has
no value. -/
def logical : Option Value → Reading
  | some (.series s) => .series s
  | some v => .constant (some (indicator v.truthy))
  | none => .constant none

def combine (f : Option Float → Option Float → Option Float) (now : Timestamp) :
    Reading → Reading → Series
  | .series s, .series t => s.align f t
  | .series s, .constant y => s.mapValues fun x => f x y
  | .constant x, .series t => t.mapValues fun y => f x y
  | .constant x, .constant y => .single now (f x y)

end Reading

namespace Operator

/-- Arithmetic on operands, no value counting as zero. An operand that is neither a series nor a
number empties the result. -/
def calculate (f : Float → Float → Float) (left right : Option Value) (now : Timestamp) : Series :=
  match Reading.arithmetic? left, Reading.arithmetic? right with
  | some a, some b => Reading.combine (fun x y => some (f (x.getD 0) (y.getD 0))) now a b
  | _, _ => .empty

/-- Comparison of texts by code points; an operator that compares nothing has no answer. -/
def compareTexts (op : Operator) (a b : String) : Option Bool :=
  match op with
  | .equal => some (a == b)
  | .notEqual => some (a != b)
  | .lessThan => some (decide (a < b))
  | .greaterThan => some (decide (b < a))
  | .lessThanEqual => some (!decide (b < a))
  | .greaterThanEqual => some (!decide (a < b))
  | _ => none

/-- Comparison of the values of two points. Equality tells no value from zero, the order does not;
an operator that compares nothing answers no. -/
def comparePoints (op : Operator) (x y : Option Float) : Bool :=
  match op with
  | .equal => x == y
  | .notEqual => x != y
  | .lessThan => x.getD 0 < y.getD 0
  | .greaterThan => x.getD 0 > y.getD 0
  | .lessThanEqual => x.getD 0 ≤ y.getD 0
  | .greaterThanEqual => x.getD 0 ≥ y.getD 0
  | _ => false

/-- Whether the operator asks for equality, plain or negated. -/
def isEquality : Operator → Bool
  | .equal => true
  | .notEqual => true
  | _ => false

/-- The answer of an equality between a text and something that is no text. -/
def unequalTo (op : Operator) (other : Option Value) (now : Timestamp) : Series :=
  let answer := some (indicator (op == .notEqual))
  match other with
  | some (.series s) => s.mapValues fun _ => answer
  | _ => .single now answer

/-- Comparison of operands, one and zero standing for yes and no. Two texts compare as texts, and a
text equals nothing that is not one. -/
def compare (op : Operator) (left right : Option Value) (now : Timestamp) : Series :=
  match left, right with
  | some (.scalar (.string a)), some (.scalar (.string b)) =>
    .single now ((op.compareTexts a b).map indicator)
  | some (.scalar (.string _)), other =>
    if op.isEquality then op.unequalTo other now else compareReadings op left right now
  | other, some (.scalar (.string _)) =>
    if op.isEquality then op.unequalTo other now else compareReadings op left right now
  | _, _ => compareReadings op left right now
where
  /-- Comparison by the numbers that operands stand for. -/
  compareReadings (op : Operator) (left right : Option Value) (now : Timestamp) : Series :=
    Reading.combine (fun x y => some (indicator (op.comparePoints x y))) now
      (Reading.compared left) (Reading.compared right)

/-- Logic on operands by their truth. -/
def decideBoth (f : Bool → Bool → Bool) (left right : Option Value) (now : Timestamp) : Series :=
  Reading.combine (fun x y => some (indicator (f (truthyPoint x) (truthyPoint y)))) now
    (Reading.logical left) (Reading.logical right)

def apply (op : Operator) (left right : Option Value) (now : Timestamp) : Series :=
  match op with
  | .add => calculate (fun x y => x + y) left right now
  | .subtract => calculate (fun x y => x - y) left right now
  | .multiply => calculate (fun x y => x * y) left right now
  | .divide => calculate (fun x y => if y == 0 then 0 else x / y) left right now
  | .and => decideBoth (· && ·) left right now
  | .or => decideBoth (· || ·) left right now
  | _ => op.compare left right now

end Operator

/-- Negation by truth, point by point on a series. What is missing counts as false. -/
def Value.negate (operand : Option Value) (now : Timestamp) : Series :=
  match operand with
  | some (.series s) => s.mapValues fun x => some (indicator (!truthyPoint x))
  | some v => .single now (some (indicator (!v.truthy)))
  | none => .single now (some (indicator true))

end MetricScript
