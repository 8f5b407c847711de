import MetricScript.Value.Basic
import MetricScript.Decimal.Plain

/-! The text of a value in a message. -/

namespace MetricScript

/-- The text of a scalar; a text stands without quotes. -/
def Scalar.display : Scalar → String
  | .number x => Decimal.plain x
  | .bool true => "true"
  | .bool false => "false"
  | .string s => s
  | .null => "null"

namespace Value

mutual

/-- The text of a value. Of a series only the length is shown. -/
def display : Value → String
  | .scalar s => s.display
  | .series s => "series[" ++ String.ofList (Decimal.digitsOf s.length) ++ "]"
  | .entity e => e.display
  | .list items => "[" ++ ",".intercalate (displayItems items) ++ "]"
termination_by structural v => v

def displayItems : List (Option Value) → List String
  | [] => []
  | item :: rest => displayOption item :: displayItems rest
termination_by structural items => items

def displayOption : Option Value → String
  | some v => v.display
  | none => "undefined"
termination_by structural v => v

end

end Value

end MetricScript
