/-!
Syntax trees as the parser of the language delivers them: a node has children in lists under the
name of a rule or of a kind of token, and a token has the text it was written as.
-/

namespace MetricScript

/-- A token: its text, and where it begins if that is known. -/
structure Token where
  image : String
  offset : Option Nat
  deriving DecidableEq, Repr

mutual

/-- A node: the rule it comes from if that is known, and its children by name, in ascending order of
name. -/
inductive Node where
  | mk (rule : Option String) (children : List (String × List Element))

inductive Element where
  | node (n : Node)
  | token (t : Token)

end

namespace Element

/-- The node, if the child is one. -/
def node? : Element → Option Node
  | .node n => some n
  | .token _ => none

/-- The token, if the child is one. -/
def token? : Element → Option Token
  | .node _ => none
  | .token t => some t

end Element

namespace Node

instance : Inhabited Node := ⟨.mk none []⟩

/-- The rule that a node comes from. -/
def rule : Node → Option String
  | .mk rule _ => rule

def children : Node → List (String × List Element)
  | .mk _ children => children

def comesFrom (n : Node) (rule : String) : Bool :=
  n.rule == some rule

def elements (n : Node) (key : String) : List Element :=
  (n.children.lookup key).getD []

def has (n : Node) (key : String) : Bool :=
  !(n.elements key).isEmpty

def nodes (n : Node) (key : String) : List Node :=
  (n.elements key).filterMap Element.node?

def tokens (n : Node) (key : String) : List Token :=
  (n.elements key).filterMap Element.token?

def firstNode? (n : Node) (key : String) : Option Node :=
  (n.nodes key).head?

def firstToken? (n : Node) (key : String) : Option Token :=
  (n.tokens key).head?

/-- The values that a look-up can find are values of the list. -/
theorem exists_mem_of_lookup {α β : Type} [BEq α] {entries : List (α × β)} {key : α} {value : β}
    (h : entries.lookup key = some value) : ∃ entry ∈ entries, entry.2 = value := by
  induction entries with
  | nil => simp at h
  | cons entry rest ih =>
    obtain ⟨k, v⟩ := entry
    rw [List.lookup_cons] at h
    split at h
    · exact ⟨(k, v), List.mem_cons_self, by simpa using h⟩
    · obtain ⟨entry, hmem, hvalue⟩ := ih h
      exact ⟨entry, List.mem_cons_of_mem _ hmem, hvalue⟩

/-- The nodes under a name are smaller than the node itself, so that a tree can be descended. -/
theorem sizeOf_lt_of_mem_nodes {n m : Node} {key : String} (h : m ∈ n.nodes key) :
    sizeOf m < sizeOf n := by
  obtain ⟨rule, children⟩ := n
  simp only [nodes, elements, Node.children, List.mem_filterMap] at h
  obtain ⟨element, hmem, hnode⟩ := h
  cases element with
  | token t => simp [Element.node?] at hnode
  | node k =>
    obtain rfl : k = m := by simpa [Element.node?] using hnode
    cases hlookup : children.lookup key with
    | none => simp [hlookup] at hmem
    | some elements =>
      rw [hlookup, Option.getD_some] at hmem
      obtain ⟨⟨k', v⟩, hentry, rfl⟩ := exists_mem_of_lookup hlookup
      have h₁ := List.sizeOf_lt_of_mem hmem
      have h₂ := List.sizeOf_lt_of_mem hentry
      simp only [Element.node.sizeOf_spec, Prod.mk.sizeOf_spec, Node.mk.sizeOf_spec] at h₁ h₂ ⊢
      omega

end Node

end MetricScript
