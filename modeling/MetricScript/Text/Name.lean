import MetricScript.Text.Fold

/-! Finite types whose members are written by name. -/

namespace MetricScript

/-- A finite type with a written name for each member. -/
class Named (α : Type) where
  /-- Every member, in order of declaration. -/
  members : List α
  /-- How a member is written. -/
  name : α → String

namespace Named

variable {α : Type} [Named α]

/-- The member written exactly so. -/
def ofName? (text : String) : Option α :=
  (members : List α).find? fun a => name a == text

/-- The member written so up to the case of `A` to `Z`. -/
def ofFoldedName? (text : String) : Option α :=
  (members : List α).find? fun a => Text.equalsFolded (name a) text

end Named

end MetricScript
