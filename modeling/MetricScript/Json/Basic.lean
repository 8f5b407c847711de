/-!
JSON values. A whole number that fits into 64 bits is kept exactly, any other number is a double,
and the fields of an object are kept in the order written, repetitions included.
-/

namespace MetricScript

inductive Json where
  | null
  | bool (b : Bool)
  /-- A number written without point and exponent that fits an unsigned or signed 64-bit word. -/
  | int (n : Int)
  /-- Any other number; finite if it comes from a text. -/
  | float (x : Float)
  | string (s : String)
  | array (items : List Json)
  | object (fields : List (String × Json))
  /-- A well formed text without a value: a number too large for a double, or a string with half a
  surrogate pair. It may be passed over and never be read. -/
  | unreadable
  deriving Inhabited

namespace Json

/-- How deep arrays and objects may be nested in a text that is read. -/
def nestingLimit : Nat := 127

mutual

/-- How deep arrays and objects are nested in a value. -/
def depth : Json → Nat
  | .array items => 1 + depthItems items
  | .object fields => 1 + depthFields fields
  | _ => 0
termination_by structural j => j

def depthItems : List Json → Nat
  | [] => 0
  | j :: rest => max j.depth (depthItems rest)
termination_by structural items => items

def depthFields : List (String × Json) → Nat
  | [] => 0
  | (_, j) :: rest => max j.depth (depthFields rest)
termination_by structural fields => fields

end

mutual

/-- Whether a value has no unreadable part. -/
def readable : Json → Bool
  | .array items => readableItems items
  | .object fields => readableFields fields
  | .unreadable => false
  | _ => true
termination_by structural j => j

def readableItems : List Json → Bool
  | [] => true
  | j :: rest => j.readable && readableItems rest
termination_by structural items => items

def readableFields : List (String × Json) → Bool
  | [] => true
  | (_, j) :: rest => j.readable && readableFields rest
termination_by structural fields => fields

end

/-- A number that a double holds: NaN and the infinities have no JSON text and become null. -/
def ofFloat (x : Float) : Json :=
  if x.isFinite then .float x else .null

/-- A text, or null where there is none. -/
def ofString? : Option String → Json
  | some s => .string s
  | none => .null

end Json

end MetricScript
