import MetricScript.Value.Basic

/-! What a script hands to the charts. -/

namespace MetricScript

/-- How a series is drawn. -/
inductive ChartType where
  | area
  | bar
  deriving DecidableEq, Repr

/-- The names stand in lower case only. -/
instance : Named ChartType where
  members := [.area, .bar]
  name
    | .area => "area"
    | .bar => "bar"

/-- One plot. All but what is drawn may be left open. -/
structure Plot where
  /-- What is drawn; no handle and no empty collection. -/
  series : Value
  label : Option String
  chartType : Option ChartType
  /-- A text that names a color. -/
  color : Option String
  dashed : Option Bool
  group : Option Value

/-- One highlight, with the arguments as they were given. -/
structure Highlight where
  arguments : List (Option Value)

end MetricScript
