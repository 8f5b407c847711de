import MetricScript.Json.Basic
import MetricScript.Decimal.Read
import MetricScript.Text.Name

/-!
Reading typed data out of JSON values. Fields are looked up by name: one that is asked for may occur
only once, one that nobody asks for is passed over. A record may also be written as an array of its
fields in order.
-/

namespace MetricScript.Json

/-- The double that a number denotes. -/
def float? : Json → Option Float
  | .int n => some (Float.ofInt n)
  | .float x => some x
  | _ => none

/-- A whole number of a signed 64-bit word. -/
def int64? : Json → Option Int
  | .int n => if -0x8000000000000000 ≤ n ∧ n < 0x8000000000000000 then some n else none
  | _ => none

/-- A whole number of an unsigned 64-bit word. -/
def word? : Json → Option Nat
  | .int n => if 0 ≤ n ∧ n.toNat ≤ Decimal.wordMax then some n.toNat else none
  | _ => none

def string? : Json → Option String
  | .string s => some s
  | _ => none

def bool? : Json → Option Bool
  | .bool b => some b
  | _ => none

/-- Null as absence, anything else by the given reader. -/
def orNull? {α : Type} (read : Json → Option α) : Json → Option (Option α)
  | .null => some none
  | j => (read j).map some

/-- A member of a finite type: its name, or an object whose only field has that name and is null. -/
def named? {α : Type} [Named α] : Json → Option α
  | .string s => Named.ofName? s
  | .object [(s, .null)] => Named.ofName? s
  | _ => none

/-- The fields of a record whose fields have these names: those of an object, or the items of an
array, which may end early but not late. -/
def record? (names : List String) : Json → Option (List (String × Json))
  | .object fields => some fields
  | .array items => if items.length ≤ names.length then some (names.zip items) else none
  | _ => none

@[simp] theorem record?_object (names : List String) (fields : List (String × Json)) :
    (object fields).record? names = some fields := rfl

/-- The values that the fields of one name have, in the order written. -/
def valuesOf (name : String) (fields : List (String × Json)) : List Json :=
  fields.filterMap fun (key, value) => if key = name then some value else none

/-- A field that must be present, once. -/
def required? {α : Type} (name : String) (read : Json → Option α)
    (fields : List (String × Json)) : Option α :=
  match valuesOf name fields with
  | [value] => read value
  | _ => none

/-- A field that may be absent, for which the default stands in; repeated it is refused. -/
def defaulted? {α : Type} (name : String) (default : α) (read : Json → Option α)
    (fields : List (String × Json)) : Option α :=
  match valuesOf name fields with
  | [] => some default
  | [value] => read value
  | _ => none

end MetricScript.Json
