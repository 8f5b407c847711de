import MetricScript.Json.Decode
import MetricScript.Series.Basic

/-! Series as JSON: a list of pairs of a time and a value, which may be null. -/

namespace MetricScript

/-- Writes a point. NaN and the infinities become null. -/
def Point.toJson (p : Point) : Json :=
  .array [.int p.time, p.value.elim .null Json.ofFloat]

def Point.ofJson? : Json → Option Point
  | .array [time, value] => do
    let time ← Json.int64? time
    let value ← Json.orNull? Json.float? value
    some ⟨time, value⟩
  | _ => none

def Series.toJson (s : Series) : Json :=
  .array (s.points.map Point.toJson)

/-- Reads a series. The points may come in any order; of several at one time the last counts. -/
def Series.ofJson? : Json → Option Series
  | .array points => (points.mapM Point.ofJson?).map Series.ofPoints
  | _ => none

end MetricScript
