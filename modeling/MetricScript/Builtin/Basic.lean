import MetricScript.Text.Name

/-! The functions that the language has built in, entity constructors apart. -/

namespace MetricScript

/-- A function of the language. -/
inductive Builtin where
  /-- Trailing simple average. -/
  | ma
  /-- Exponential average. -/
  | ema
  /-- Difference from the point before. -/
  | diff
  /-- Absolute value. -/
  | abs
  /-- Change from the point before in percent. -/
  | pctChange
  /-- Choice between two values. -/
  | choose
  deriving DecidableEq, Repr

/-- In a script the names stand in any case. -/
instance : Named Builtin where
  members := [.ma, .ema, .diff, .abs, .pctChange, .choose]
  name
    | .ma => "ma"
    | .ema => "ema"
    | .diff => "diff"
    | .abs => "abs"
    | .pctChange => "pctchange"
    | .choose => "if"

namespace Builtin

/-- The name in capitals. -/
def label (b : Builtin) : String :=
  Text.upperAscii (Named.name b)

/-- The name as it is best written in a script. -/
def spelling : Builtin → String
  | .pctChange => "pctChange"
  | b => Named.name b

end Builtin

end MetricScript
