import MetricScript.Text.Name

/-! What metrics are kept about: protocols, chains and tokens, each named by an identifier. -/

namespace MetricScript

/-- The kinds of things that metrics are kept about. -/
inductive EntityKind where
  | protocol
  | chain
  | token
  deriving DecidableEq, Repr

/-- In a script the names stand in any case. -/
instance : Named EntityKind where
  members := [.protocol, .chain, .token]
  name
    | .protocol => "protocol"
    | .chain => "chain"
    | .token => "token"

/-- The kind in capitals, as messages show it. -/
def EntityKind.label (kind : EntityKind) : String :=
  Text.upperAscii (Named.name kind)

/-- A handle on one protocol, chain or token. It carries no data; its properties do. -/
structure Entity where
  kind : EntityKind
  id : String
  deriving DecidableEq, Repr

/-- A handle as messages show it. -/
def Entity.display (e : Entity) : String :=
  e.kind.label ++ "(" ++ e.id ++ ")"

end MetricScript
