import MetricScript.Series.Basic

/-!
Transforms that keep the times of a series: averages, differences, absolute values. Each point of
the result depends on points up to its own position only. A point without a value counts as zero
unless a transform says otherwise.
-/

namespace MetricScript.Series

/-- The number that a value stands for in a calculation: zero where there is none. -/
def orZero (value : Option Float) : Float :=
  value.getD 0

/-- Sum of values, added up from the left. The sum of nothing is minus zero, the neutral element
of addition for both zeros. -/
def sum (values : List (Option Float)) : Float :=
  values.foldl (fun total value => total + orZero value) (-0.0)

/-- The `window` values that end at position `i`; a position before the first full window has
none. -/
def trailing? (values : List (Option Float)) (window i : Nat) : Option (List (Option Float)) :=
  if window = 0 || i + 1 < window then none
  else some ((values.drop (i + 1 - window)).take window)

/-- Trailing simple average. Before the first full window there is no value; a window of length zero
is never full. -/
def movingAverage (window : Nat) (s : Series) : Series :=
  s.mapIdx fun i _ =>
    (trailing? s.values window i).map fun values => sum values / window.toUInt64.toFloat

/-- Follows an exponential average through points, given the average so far, if there is one. -/
def averageFrom (alpha : Float) (previous : Option Float) : List Point → List Point
  | [] => []
  | p :: rest =>
    let current := orZero p.value
    let average := alpha * current + (1.0 - alpha) * previous.getD current
    ⟨p.time, some average⟩ :: averageFrom alpha (some average) rest

/-- Exponential average with the weight `2 / (window + 1)` for the newest value. The first point is
taken as it is, and if it has no value then the second one starts the average. -/
def exponentialAverage (window : Nat) (s : Series) : Series :=
  match s.points with
  | [] => ⟨[]⟩
  | first :: rest =>
    let alpha := 2.0 / (window.toUInt64.toFloat + 1.0)
    ⟨first :: averageFrom alpha first.value rest⟩

/-- Combines every value with the one before it; the first point has none and loses its value. -/
def stepwise (f : (previous current : Float) → Float) (s : Series) : Series :=
  match s.points with
  | [] => ⟨[]⟩
  | first :: rest =>
    ⟨⟨first.time, none⟩ ::
      List.zipWith (fun p q => ⟨q.time, some (f (orZero p.value) (orZero q.value))⟩)
        s.points rest⟩

/-- Difference from the point before. -/
def differences : Series → Series :=
  stepwise fun previous current => current - previous

/-- Change from one value to the next in percent; a change from zero or from NaN is measured
against one. -/
def percentStep (previous current : Float) : Float :=
  let base := if previous == 0 || previous.isNaN then 1.0 else previous
  (current - previous) / base * 100.0

/-- Change from the point before in percent. -/
def percentChanges : Series → Series :=
  stepwise percentStep

/-- Absolute values; a point without a value stays without one. -/
def absolute : Series → Series :=
  mapValues (Option.map Float.abs)

end MetricScript.Series
