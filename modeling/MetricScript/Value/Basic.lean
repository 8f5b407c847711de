import MetricScript.Metric.Entity
import MetricScript.Series.Basic

/-!
What expressions evaluate to. A value that is missing, because its evaluation failed, is an absent
`Option`, to be told from the null scalar, which is a value.
-/

namespace MetricScript

/-- A value without structure. -/
inductive Scalar where
  | number (x : Float)
  | bool (b : Bool)
  | string (s : String)
  | null
  deriving Inhabited

inductive Value where
  | scalar (s : Scalar)
  | series (s : Series)
  | entity (e : Entity)
  /-- The items of an array; one whose evaluation failed is missing. -/
  | list (items : List (Option Value))
  deriving Inhabited

/-- Truth of a number: anything but zero and NaN. -/
def truthyNumber (x : Float) : Bool :=
  x != 0 && !x.isNaN

/-- Truth of the value of a point; without a value it is false. -/
def truthyPoint : Option Float → Bool
  | some x => truthyNumber x
  | none => false

/-- One for true, zero for false. -/
def indicator (b : Bool) : Float :=
  if b then 1 else 0

namespace Scalar

/-- The number that a scalar stands for in comparisons and branches; texts and null have none. -/
def number? : Scalar → Option Float
  | .number x => some x
  | .bool b => some (indicator b)
  | .string _ => none
  | .null => none

/-- Truth of a scalar. A text is true unless it is empty. -/
def truthy : Scalar → Bool
  | .number x => truthyNumber x
  | .bool b => b
  | .string s => s != ""
  | .null => false

end Scalar

namespace Value

def number (x : Float) : Value := .scalar (.number x)

def string (s : String) : Value := .scalar (.string s)

def null : Value := .scalar .null

def series? : Value → Option Series
  | .series s => some s
  | _ => none

def string? : Value → Option String
  | .scalar (.string s) => some s
  | _ => none

/-- Truth of a value: series, handles and lists are true even when they are empty. -/
def truthy : Value → Bool
  | .scalar s => s.truthy
  | _ => true

/-- Whether the value is a series or a list with nothing in it. -/
def isEmptyCollection : Value → Bool
  | .series s => s.isEmpty
  | .list items => items.isEmpty
  | _ => false

end Value

end MetricScript
