import MetricScript.Text.Name

/-! The binary operators of the language. -/

namespace MetricScript

inductive Operator where
  | add
  | subtract
  | multiply
  | divide
  | equal
  | notEqual
  | lessThan
  | greaterThan
  | lessThanEqual
  | greaterThanEqual
  | and
  | or
  deriving DecidableEq, Repr

instance : Named Operator where
  members :=
    [.add, .subtract, .multiply, .divide, .equal, .notEqual, .lessThan, .greaterThan,
      .lessThanEqual, .greaterThanEqual, .and, .or]
  name
    | .add => "Add"
    | .subtract => "Subtract"
    | .multiply => "Multiply"
    | .divide => "Divide"
    | .equal => "Equal"
    | .notEqual => "NotEqual"
    | .lessThan => "LessThan"
    | .greaterThan => "GreaterThan"
    | .lessThanEqual => "LessThanEqual"
    | .greaterThanEqual => "GreaterThanEqual"
    | .and => "And"
    | .or => "Or"

end MetricScript
