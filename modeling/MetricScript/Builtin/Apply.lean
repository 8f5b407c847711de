import MetricScript.Decimal.Binary
import MetricScript.Decimal.Read
import MetricScript.Run.Failure
import MetricScript.Series.Transform

/-! What the built-in functions answer to their arguments, any of which may be missing. -/

namespace MetricScript.Builtin

/-- The argument at a position; missing also behind the end. -/
def argument? (arguments : List (Option Value)) (i : Nat) : Option Value :=
  arguments[i]?.join

/-- A window given as a number: whole, at least one; a huge one counts as the largest word. -/
def window? : Value → Option Nat
  | .scalar (.number x) =>
    if x ≥ 1 then (wholeMagnitude? x).map (min Decimal.wordMax) else none
  | _ => none

/-- The only argument, if it is a series. -/
def onlySeries? : List (Option Value) → Option Series
  | [some (.series s)] => some s
  | _ => none

/-- The value that a branch has at a position, for a choice made point by point. -/
def branchValue (branch : Option Value) (i : Nat) : Option Float :=
  match branch with
  | some (.series s) => s.valueAt i
  | some (.scalar x) => x.number?
  | _ => none

/-- The value of a branch that is taken as a whole: a text, a series, a handle or a list stands for
itself, any other scalar becomes a point at the present moment. -/
def wholeBranch (branch : Option Value) (now : Timestamp) : Value :=
  match branch with
  | some (.scalar (.string s)) => .string s
  | some (.scalar x) => .series (.single now x.number?)
  | some v => v
  | none => .series (.single now none)

/-- Choice between two values. By a series the choice is made point by point, and series among the
branches are read by position; by anything else it is made once. -/
def select (condition thenBranch elseBranch : Option Value) (now : Timestamp) : Value :=
  match condition with
  | some (.series s) =>
    .series (s.mapIdx fun i x => branchValue (if truthyPoint x then thenBranch else elseBranch) i)
  | _ => wholeBranch (if condition.any Value.truthy then thenBranch else elseBranch) now

/-- The window of an average: the second argument, or the default if that is missing or null. -/
def windowOf (b : Builtin) (arguments : List (Option Value)) (defaultWindow : Nat) :
    Except Failure Nat :=
  match argument? arguments 1 with
  | none => .ok defaultWindow
  | some (.scalar .null) => .ok defaultWindow
  | some v =>
    match window? v with
    | some n => .ok n
    | none => .error (.windowExpected b)

/-- An average over a window, of the series that is the first argument. -/
def average (b : Builtin) (transform : Nat → Series → Series) (arguments : List (Option Value))
    (defaultWindow : Nat) : Except Failure Value :=
  match (argument? arguments 0).bind Value.series? with
  | none => .error (.seriesExpected b)
  | some s => (b.windowOf arguments defaultWindow).map fun n => .series (transform n s)

/-- A transform of the series that is the only argument. -/
def transformOnly (b : Builtin) (transform : Series → Series) (arguments : List (Option Value)) :
    Except Failure Value :=
  match onlySeries? arguments with
  | some s => .ok (.series (transform s))
  | none => .error (.seriesExpected b)

/-- The value of a call. -/
def apply (b : Builtin) (arguments : List (Option Value)) (defaultWindow : Nat) (now : Timestamp) :
    Except Failure Value :=
  match b with
  | .ma => b.average Series.movingAverage arguments defaultWindow
  | .ema => b.average Series.exponentialAverage arguments defaultWindow
  | .diff => b.transformOnly Series.differences arguments
  | .abs => b.transformOnly Series.absolute arguments
  | .pctChange => b.transformOnly Series.percentChanges arguments
  | .choose =>
    .ok (select (argument? arguments 0) (argument? arguments 1) (argument? arguments 2) now)

end MetricScript.Builtin

namespace MetricScript

/-- The handle made from one text; anything else is refused. -/
def EntityKind.construct (kind : EntityKind) : List (Option Value) → Except Failure Value
  | [some (.scalar (.string id))] => .ok (.entity ⟨kind, id⟩)
  | arguments => .error (.noIdentifier kind arguments)

end MetricScript
