import MetricScript.Series.Json
import MetricScript.Value.Basic

/-! Values as JSON. They are written without a tag, so that the reader has to tell them apart. -/

namespace MetricScript

def Scalar.toJson : Scalar → Json
  | .number x => Json.ofFloat x
  | .bool b => .bool b
  | .string s => .string s
  | .null => .null

def Scalar.ofJson? : Json → Option Scalar
  | .null => some .null
  | .bool b => some (.bool b)
  | .string s => some (.string s)
  | j => (Json.float? j).map .number

def Entity.toJson (e : Entity) : Json :=
  .object [("kind", .string (Named.name e.kind)), ("id", .string e.id)]

def Entity.ofJson? (j : Json) : Option Entity := do
  let fields ← j.record? ["kind", "id"]
  let kind ← Json.required? "kind" Json.named? fields
  let id ← Json.required? "id" Json.string? fields
  some ⟨kind, id⟩

namespace Value

mutual

def toJson : Value → Json
  | .scalar s => s.toJson
  | .series s => s.toJson
  | .entity e => e.toJson
  | .list items => .array (itemsToJson items)
termination_by structural v => v

def itemsToJson : List (Option Value) → List Json
  | [] => []
  | item :: rest => optionToJson item :: itemsToJson rest
termination_by structural items => items

/-- Writes a value that may be missing; then it is null. -/
def optionToJson : Option Value → Json
  | some v => v.toJson
  | none => .null
termination_by structural v => v

end

end Value

end MetricScript
