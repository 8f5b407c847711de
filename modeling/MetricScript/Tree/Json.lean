import MetricScript.Json.Decode
import MetricScript.Json.Reader
import MetricScript.Json.Writer
import MetricScript.NameMap
import MetricScript.Tree.Basic

/-!
Syntax trees as JSON. A child is read as a node if that is possible and as a token otherwise. What
is written can be read again; what is read may hold more than is needed.
-/

namespace MetricScript

def Token.ofJson? (j : Json) : Option Token := do
  let fields ← j.record? ["image", "startOffset"]
  let image ← Json.required? "image" Json.string? fields
  let offset ← Json.defaulted? "startOffset" none (Json.orNull? Json.word?) fields
  some ⟨image, offset⟩

namespace Node

mutual

/-- Reads a node: its rule, which may be absent or null, and its children, which must be there. -/
def ofJson? (j : Json) : Option Node :=
  match j with
  | .object fields => do
    let rule ← Json.defaulted? "name" none (Json.orNull? Json.string?) fields
    match childrenFields fields with
    | [some children] => some (.mk rule (NameMap.sortEntries children))
    | _ => none
  | .array [rule, children] => do
    let rule ← Json.orNull? Json.string? rule
    let children ← children? children
    some (.mk rule (NameMap.sortEntries children))
  | _ => none
termination_by structural j

def childrenFields (fields : List (String × Json)) :
    List (Option (List (String × List Element))) :=
  match fields with
  | [] => []
  | (key, value) :: rest =>
    if key = "children" then children? value :: childrenFields rest else childrenFields rest
termination_by structural fields

def children? (j : Json) : Option (List (String × List Element)) :=
  match j with
  | .object entries => entries? entries
  | _ => none
termination_by structural j

/-- Reads lists of children, each under its name. -/
def entries? (entries : List (String × Json)) : Option (List (String × List Element)) :=
  match entries with
  | [] => some []
  | (key, value) :: rest => do
    let elements ← list? value
    let rest ← entries? rest
    some ((key, elements) :: rest)
termination_by structural entries

def list? (j : Json) : Option (List Element) :=
  match j with
  | .array items => elements? items
  | _ => none
termination_by structural j

/-- Reads children, each as a node if it can be one, else as a token. -/
def elements? (items : List Json) : Option (List Element) :=
  match items with
  | [] => some []
  | item :: rest => do
    let element ←
      match ofJson? item with
      | some n => some (Element.node n)
      | none => (Token.ofJson? item).map Element.token
    let rest ← elements? rest
    some (element :: rest)
termination_by structural items

end

/-- An array is read as the object whose fields are its items. -/
theorem ofJson?_array (items : List Json) :
    ofJson? (.array items) =
      (Json.record? ["name", "children"] (.array items)).bind fun fields =>
        ofJson? (.object fields) := by
  match items with
  | [] => rfl
  | [rule] =>
      change none = (Json.orNull? Json.string? rule).bind fun _ => none
      cases Json.orNull? Json.string? rule <;> rfl
  | [rule, value] =>
      have hobject : ofJson? (.object [("name", rule), ("children", value)]) =
          (Json.orNull? Json.string? rule).bind fun rule =>
            match [children? value] with
            | [some children] => some (.mk rule (NameMap.sortEntries children))
            | _ => none := rfl
      refine Eq.trans ?_ hobject.symm
      rw [ofJson?]
      cases Json.orNull? Json.string? rule <;> cases children? value <;> rfl
  | _ :: _ :: _ :: rest =>
      rw [Json.record?, if_neg (by simp), ofJson?] <;> simp

end Node

def Element.ofJson? (j : Json) : Option Element :=
  match Node.ofJson? j with
  | some n => some (.node n)
  | none => (Token.ofJson? j).map .token

def Token.toJson (t : Token) : Json :=
  .object [("image", .string t.image),
    ("startOffset", t.offset.elim .null fun offset => .int offset)]

namespace Node

mutual

def toJson : Node → Json
  | .mk rule children =>
    .object [("name", Json.ofString? rule), ("children", .object (entriesToJson children))]
termination_by structural n => n

/-- Writes lists of children, each under its name. -/
def entriesToJson : List (String × List Element) → List (String × Json)
  | [] => []
  | (key, elements) :: rest => (key, .array (elementsToJson elements)) :: entriesToJson rest
termination_by structural entries => entries

def elementsToJson : List Element → List Json
  | [] => []
  | element :: rest => elementToJson element :: elementsToJson rest
termination_by structural elements => elements

def elementToJson : Element → Json
  | .node n => n.toJson
  | .token t => t.toJson
termination_by structural element => element

end

/-- Reads a node that is a document of its own. Its children must be readable throughout, and the
document may be nested no deeper than the limit; fields that are passed over are not looked at. -/
def ofDocument? (j : Json) : Option Node := do
  let fields ← j.record? ["name", "children"]
  if (Json.valuesOf "children" fields).all fun children =>
      children.readable && children.depth < Json.nestingLimit then
    ofJson? j
  else none

def ofText? (text : String) : Option Node :=
  (Json.parse? text).bind ofDocument?

def toText (n : Node) : String :=
  n.toJson.toText

end Node

end MetricScript
