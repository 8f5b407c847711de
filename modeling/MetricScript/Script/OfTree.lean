import MetricScript.Decimal.Read
import MetricScript.Script.Basic
import MetricScript.Text.Fold
import MetricScript.Tree.Basic

/-!
Scripts out of syntax trees. No tree is refused: a part without meaning becomes an unsupported
expression or statement, which complains when it is run.
-/

namespace MetricScript

/-! ### Ranks of operators -/

/-- A rank of precedence: the name under which operands stand, and the names under which the tokens
of its operators stand. -/
structure Rank where
  operand : String
  operators : List (String × Operator)

namespace Rank

def logical : Rank := ⟨"comparisonExpression", [("And", .and), ("Or", .or)]⟩

def comparison : Rank :=
  ⟨"additiveExpression",
    [("Eq", .equal), ("Neq", .notEqual), ("Gte", .greaterThanEqual), ("Lte", .lessThanEqual),
      ("Gt", .greaterThan), ("Lt", .lessThan)]⟩

def additive : Rank := ⟨"multiplicativeExpression", [("Plus", .add), ("Minus", .subtract)]⟩

def multiplicative : Rank := ⟨"unaryExpression", [("Mult", .multiply), ("Div", .divide)]⟩

/-- The rank that a rule stands for, if it stands for one. -/
def ofRule? : String → Option Rank
  | "logicalExpression" => some logical
  | "comparisonExpression" => some comparison
  | "additiveExpression" => some additive
  | "multiplicativeExpression" => some multiplicative
  | _ => none

/-- The operator tokens of a node with their operators, in the order in which the rank lists the
operators. -/
def operatorTokens (rank : Rank) (n : Node) : List (Token × Operator) :=
  rank.operators.flatMap fun (key, op) => (n.tokens key).map fun t => (t, op)

/-- The operators of a node in the order written. If a token does not say where it begins then the
order in which the rank lists the operators stands in. -/
def operatorsOf (rank : Rank) (n : Node) : List Operator :=
  let tokens := rank.operatorTokens n
  let sorted :=
    if tokens.all fun (t, _) => t.offset.isSome then
      tokens.mergeSort fun (t, _) (u, _) => t.offset.getD 0 ≤ u.offset.getD 0
    else tokens
  sorted.map Prod.snd

end Rank

namespace Expr

/-- Operands joined by operators. A lone operand stands for itself; operands without an operator in
front of them and operators without an operand behind them are left out. -/
def ofOperands : List Expr → List Operator → Expr
  | [], _ => .unsupported
  | first :: _, [] => first
  | first :: rest, operators => .chain first (operators.zip rest)

/-- An expression with members behind it, if there is a dot to set them off. -/
def withMembers (n : Node) (base : Expr) (names : List String) : Expr :=
  if names.isEmpty || !n.has "Dot" then base else .member base names

/-- The text inside quotes: one pair of equal quotes around it is taken off. -/
def unquote (image : String) : String :=
  match image.toList with
  | [] => image
  | quote :: rest =>
    if (quote = '\x22' || quote = '\x27') && rest.getLast? == some quote then
      String.ofList rest.dropLast
    else image

def identifiers (n : Node) : List String :=
  (n.tokens "Identifier").map Token.image

/-- The name of the function that a primary with brackets calls, and the members behind the call. A
token of its own names the function `plot`. -/
def callee? (n : Node) : Option (String × List String) :=
  match n.firstToken? "Plot", identifiers n with
  | some t, names => some (t.image, names)
  | none, function :: names => some (function, names)
  | none, [] => none

/-- The literal that a primary consists of. -/
def ofLiteral (n : Node) : Expr :=
  match n.firstToken? "NumberLiteral" with
  | some t => (Decimal.literal? t.image).elim .unsupported fun x => .literal (.number x)
  | none =>
    match n.firstToken? "StringLiteral" with
    | some t => .literal (.string (unquote t.image))
    | none =>
      if n.has "TrueLiteral" then .literal (.bool true)
      else if n.has "FalseLiteral" then .literal (.bool false)
      else .unsupported

/-- The expressions in the first list of its name that a node has. -/
def listed (n : Node) (key : String) : List Node :=
  (n.firstNode? key).elim [] fun list => list.nodes "expression"

/-- What is listed is smaller than the node, so that a tree can be descended. -/
theorem sizeOf_lt_of_mem_listed {n m : Node} {key : String} (h : m ∈ listed n key) :
    sizeOf m < sizeOf n := by
  unfold listed at h
  cases hfirst : n.firstNode? key with
  | none => simp [hfirst] at h
  | some list =>
    rw [hfirst, Option.elim_some] at h
    have hlist : list ∈ n.nodes key := List.mem_of_mem_head? hfirst
    exact Nat.lt_trans (Node.sizeOf_lt_of_mem_nodes h) (Node.sizeOf_lt_of_mem_nodes hlist)

/-- The expression that a node stands for, given the expressions that the nodes under a name stand
for and those that are listed under a name. -/
def build (n : Node) (under listed : String → List Expr) : Expr :=
  match n.rule.bind Rank.ofRule? with
  | some rank => ofOperands (under rank.operand) (rank.operatorsOf n)
  | none =>
    if n.comesFrom "expression" then (under "logicalExpression").headD .unsupported
    else if n.comesFrom "unaryExpression" then
      if n.has "Not" then .not ((under "unaryExpression").headD .unsupported)
      else (under "primary").headD .unsupported
    else if n.has "LParen" && n.has "expression" && n.has "RParen" then
      (under "expression").headD .unsupported
    else if n.has "LBracket" && n.has "RBracket" then .array (listed "arrayElements")
    else if n.has "LParen" && n.has "RParen" then
      match callee? n with
      | some (function, names) => withMembers n (.call function (listed "args")) names
      | none => .unsupported
    else
      match identifiers n with
      | name :: names => withMembers n (.variable name) names
      | [] => ofLiteral n

def ofNode (n : Node) : Expr :=
  build n
    (fun key => (n.nodes key).attach.map fun ⟨m, h⟩ =>
      have := Node.sizeOf_lt_of_mem_nodes h
      ofNode m)
    (fun key => (listed n key).attach.map fun ⟨m, h⟩ =>
      have := sizeOf_lt_of_mem_listed h
      ofNode m)
termination_by sizeOf n

/-- A node stands for what is built from the expressions that its children stand for. -/
theorem ofNode_eq (n : Node) :
    ofNode n =
      build n (fun key => (n.nodes key).map ofNode) (fun key => (listed n key).map ofNode) := by
  rw [ofNode]
  simp

/-- The expressions that a node has as its arguments. -/
def argumentsOf (n : Node) : List Expr :=
  (listed n "args").map ofNode

end Expr

namespace Statement

/-- The name of an assignment that does not give one. -/
def namelessVariable : String := "unknown"

/-- The first node of each rank, down to the primary that an expression begins with. -/
def leadingPrimary? (n : Node) : Option Node :=
  ["logicalExpression", "comparisonExpression", "additiveExpression", "multiplicativeExpression",
    "unaryExpression", "primary"].foldlM Node.firstNode? n

/-- The primary that an expression begins with, if what it begins with is named `plot`. -/
def plotCall? (n : Node) : Option Node := do
  let primary ← leadingPrimary? n
  let callee ← (primary.firstToken? "Plot").or (primary.firstToken? "Identifier")
  if Text.equalsFolded callee.image "plot" then some primary else none

/-- The first child of a statement that is a node from a known rule, with that rule. -/
def body? (n : Node) : Option (String × Node) :=
  (n.children.flatMap Prod.snd).findSome? fun element => do
    let body ← element.node?
    let rule ← body.rule
    some (rule, body)

/-- The statement that a node from a rule stands for. -/
def ofBody (rule : String) (n : Node) : Statement :=
  match rule with
  | "assignment" =>
    .assignment ((n.firstToken? "Identifier").elim namelessVariable Token.image)
      ((n.firstNode? "expression").map Expr.ofNode)
  | "highlightStmt" => .highlight (Expr.argumentsOf n)
  | "expression" =>
    match plotCall? n with
    | some primary => .plot (Expr.argumentsOf primary)
    | none => .expression (Expr.ofNode n)
  | other => .unsupported other

/-- The statement that a node stands for; none if there is nothing in it. -/
def ofNode? (n : Node) : Option Statement :=
  (body? n).map fun (rule, body) => ofBody rule body

end Statement

/-- The script that a tree stands for; one without statements if the tree is no script. -/
def Script.ofTree (root : Node) : Script :=
  if root.comesFrom "script" then ⟨(root.nodes "statement").filterMap Statement.ofNode?⟩ else ⟨[]⟩

end MetricScript
