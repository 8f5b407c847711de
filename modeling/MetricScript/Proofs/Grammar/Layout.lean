import MetricScript.Proofs.Grammar.Basic
import MetricScript.Tree.Basic

/-! # How the parser lays phrases out as trees

A node has its children in lists under the name of a rule or of a kind of token. Operands stand in
one list, while the tokens between them are spread over a list for each operator, and only the
offsets of the tokens tell in which order they were written. -/

namespace MetricScript

/-- The names of children that have a part in the layout. Under other names, such as that of commas,
a node may have anything. -/
def Node.vocabulary : List String :=
  ["statement", "assignment", "highlightStmt", "expression", "logicalExpression",
    "comparisonExpression", "additiveExpression", "multiplicativeExpression", "unaryExpression",
    "primary", "args", "arrayElements", "And", "Or", "Eq", "Neq", "Lt", "Gt", "Lte", "Gte", "Plus",
    "Minus", "Mult", "Div", "Not", "LParen", "RParen", "LBracket", "RBracket", "Identifier", "Plot",
    "Dot", "NumberLiteral", "StringLiteral", "TrueLiteral", "FalseLiteral"]

/-- A node from a rule with these children and no others. -/
structure Node.Consists (n : Node) (rule : String) (parts : List (String × List Element)) :
    Prop where
  rule : n.rule = some rule
  elements : ∀ key ∈ Node.vocabulary, n.elements key = (parts.lookup key).getD []

/-- Tokens that begin one after the other. -/
def InOrder (tokens : List Token) : Prop :=
  ∃ offsets : List Nat, tokens.map Token.offset = offsets.map some ∧ offsets.Pairwise (· < ·)

/-- The tokens of one operator among those of several, as children. -/
def tokensOf (op : Operator) (tokens : List (Token × Operator)) : List Element :=
  (tokens.filter fun pair => pair.2 = op).map fun pair => .token pair.1

/-- A node of a tier: operands in one list, and the tokens of each operator in a list of their
own. -/
structure Node.Joins (n : Node) (t : Tier) (operands : List Node)
    (tokens : List (Token × Operator)) : Prop where
  rule : n.rule = some (Level.tier t).rule
  operands : n.elements t.operand.rule = operands.map .node
  tokens : ∀ op : Operator, op.tier = t → n.elements op.token = tokensOf op tokens

/-- The children under the name of a list. If nothing is listed then the list may be left out. -/
inductive Listing (key : String) : List Node → List Element → Prop where
  | omitted : Listing key [] []
  | listed {list : Node} {nodes : List Node}
      (h : list.Consists key [("expression", nodes.map .node)]) : Listing key nodes [.node list]

/-- The images of the tokens called `Plot`. -/
def Callee.plots : Callee → List String
  | .identifier _ => []
  | .plot image => [image]

/-- The identifiers that a callee gives. -/
def Callee.identifiers : Callee → List String
  | .identifier name => [name]
  | .plot _ => []

/-- A primary that calls something with arguments. Behind the call stand the names of members, each
with a dot in front of it. -/
inductive Node.Calls (n : Node) (callee : Callee) (arguments : List Node) (members : List String) :
    Prop where
  | intro {listing : List Element} {left right : Token} {plots names dots : List Token}
      (hlisting : Listing "args" arguments listing)
      (hplots : plots.map Token.image = callee.plots)
      (hnames : names.map Token.image = callee.identifiers ++ members)
      (hdots : dots.length = members.length)
      (hn : n.Consists "primary"
        [("Plot", plots.map .token), ("Identifier", names.map .token), ("LParen", [.token left]),
          ("args", listing), ("RParen", [.token right]), ("Dot", dots.map .token)])

/-! ## Expressions -/

mutual

/-- A node is a layout of a phrase. What tokens look like is left open where nothing depends on
it. -/
inductive Phrase.Layout : {l : Level} → Phrase l → Node → Prop where
  | expression {p : Phrase (.tier .logical)} {m n : Node} (hp : Phrase.Layout p m)
      (hn : n.Consists "expression" [("logicalExpression", [.node m])]) :
      Phrase.Layout (.expression p) n
  | joined {t : Tier} {first : Phrase t.operand} {rest : Links t} {m n : Node} {nodes : List Node}
      {tokens : List Token} (hfirst : Phrase.Layout first m) (hrest : Links.Layout rest nodes)
      (hlength : tokens.length = rest.operators.length) (horder : InOrder tokens)
      (hn : n.Joins t (m :: nodes) (tokens.zip rest.operators)) :
      Phrase.Layout (.joined first rest) n
  | negated {p : Phrase .unary} {m n : Node} {mark : Token} (hp : Phrase.Layout p m)
      (hn : n.Consists "unaryExpression"
        [("Not", [.token mark]), ("unaryExpression", [.node m])]) : Phrase.Layout (.negated p) n
  | plain {p : Phrase .primary} {m n : Node} (hp : Phrase.Layout p m)
      (hn : n.Consists "unaryExpression" [("primary", [.node m])]) : Phrase.Layout (.plain p) n
  | group {p : Phrase .expression} {m n : Node} {left right : Token} (hp : Phrase.Layout p m)
      (hn : n.Consists "primary"
        [("LParen", [.token left]), ("expression", [.node m]), ("RParen", [.token right])]) :
      Phrase.Layout (.group p) n
  | array {items : List (Phrase .expression)} {n : Node} {nodes : List Node}
      {listing : List Element} {left right : Token} (hitems : Phrase.Layouts items nodes)
      (hlisting : Listing "arrayElements" nodes listing)
      (hn : n.Consists "primary"
        [("LBracket", [.token left]), ("arrayElements", listing), ("RBracket", [.token right])]) :
      Phrase.Layout (.array items) n
  | call {callee : Callee} {arguments : List (Phrase .expression)} {members : List String}
      {n : Node} {nodes : List Node} (harguments : Phrase.Layouts arguments nodes)
      (hn : n.Calls callee nodes members) : Phrase.Layout (.call callee arguments members) n
  | name {first : String} {members : List String} {n : Node} {names dots : List Token}
      (hnames : names.map Token.image = first :: members) (hdots : dots.length = members.length)
      (hn : n.Consists "primary"
        [("Identifier", names.map .token), ("Dot", dots.map .token)]) :
      Phrase.Layout (.name first members) n
  | number {image : String} {x : Float} {h : Decimal.literal? image = some x} {n : Node}
      {offset : Option Nat}
      (hn : n.Consists "primary" [("NumberLiteral", [.token ⟨image, offset⟩])]) :
      Phrase.Layout (.number image x h) n
  | string {quote : Quote} {text : String} {n : Node} {offset : Option Nat}
      (hn : n.Consists "primary" [("StringLiteral", [.token ⟨quote.around text, offset⟩])]) :
      Phrase.Layout (.string quote text) n
  | bool {b : Bool} {n : Node} {mark : Token}
      (hn : n.Consists "primary" [(if b then "TrueLiteral" else "FalseLiteral", [.token mark])]) :
      Phrase.Layout (.bool b) n

/-- Nodes are layouts of the operands of links. -/
inductive Links.Layout : {t : Tier} → Links t → List Node → Prop where
  | nil {t : Tier} : Links.Layout (.nil : Links t) []
  | cons {t : Tier} {op : Operator} {h : op.tier = t} {p : Phrase t.operand} {rest : Links t}
      {m : Node} {nodes : List Node} (hp : Phrase.Layout p m) (hrest : Links.Layout rest nodes) :
      Links.Layout (.cons op h p rest) (m :: nodes)

/-- Nodes are layouts of phrases, one of each. -/
inductive Phrase.Layouts : List (Phrase .expression) → List Node → Prop where
  | nil : Phrase.Layouts [] []
  | cons {p : Phrase .expression} {rest : List (Phrase .expression)} {m : Node}
      {nodes : List Node} (hp : Phrase.Layout p m) (hrest : Phrase.Layouts rest nodes) :
      Phrase.Layouts (p :: rest) (m :: nodes)

end

/-! ## Statements and scripts -/

/-- A node is a layout of what a statement consists of. -/
inductive Sentence.Body : Sentence → Node → Prop where
  | assignment {name : String} {value : Option (Phrase .expression)} {n : Node} {nodes : List Node}
      {offset : Option Nat} (hvalue : Phrase.Layouts value.toList nodes)
      (hn : n.Consists "assignment"
        [("Identifier", [.token ⟨name, offset⟩]), ("expression", nodes.map .node)]) :
      Body (.assignment name value) n
  | highlight {arguments : List (Phrase .expression)} {n : Node} {nodes : List Node}
      {listing : List Element} (harguments : Phrase.Layouts arguments nodes)
      (hlisting : Listing "args" nodes listing)
      (hn : n.Consists "highlightStmt" [("args", listing)]) : Body (.highlight arguments) n
  | expression {e : Phrase .expression} {n : Node} (he : Phrase.Layout e n) :
      Body (.expression e) n

/-- A node with the layout of a statement as its only child. -/
structure Sentence.Layout (sentence : Sentence) (n : Node) : Prop where
  rule : n.rule = some "statement"
  child : ∃ body, sentence.Body body ∧ n.children.flatMap Prod.snd = [.node body]

/-- Nodes are layouts of statements, one of each, in order. -/
inductive Sentence.Layouts : List Sentence → List Node → Prop where
  | nil : Layouts [] []
  | cons {sentence : Sentence} {rest : List Sentence} {m : Node} {nodes : List Node}
      (h : sentence.Layout m) (hrest : Layouts rest nodes) : Layouts (sentence :: rest) (m :: nodes)

/-- A tree is the layout of a script. -/
def Sentence.ScriptLayout (sentences : List Sentence) (root : Node) : Prop :=
  ∃ nodes, Sentence.Layouts sentences nodes ∧
    root.Consists "script" [("statement", nodes.map .node)]

/-! ## Every phrase has a layout -/

theorem Node.consists_mk (rule : String) (parts : List (String × List Element)) :
    (Node.mk (some rule) parts).Consists rule parts :=
  ⟨rfl, fun _ _ => rfl⟩

/-- A node of a tier that has nothing but operands and the tokens between them. -/
def Node.joining (t : Tier) (operands : List Node) (tokens : List (Token × Operator)) : Node :=
  .mk (some (Level.tier t).rule)
    ((t.operand.rule, operands.map .node) ::
      (Named.members : List Operator).map fun op => (op.token, tokensOf op tokens))

theorem Node.joins_joining (t : Tier) (operands : List Node) (tokens : List (Token × Operator)) :
    (Node.joining t operands tokens).Joins t operands tokens where
  rule := rfl
  operands := by cases t <;> rfl
  tokens op hop := by
    subst hop
    cases op <;> rfl

theorem Listing.of_mk (key : String) (nodes : List Node) :
    Listing key nodes [.node (.mk (some key) [("expression", nodes.map .node)])] :=
  .listed (Node.consists_mk _ _)

/-- As many tokens as are asked for, one after the other. -/
def Token.row (count : Nat) : List Token :=
  (List.range count).map fun i => ⟨"", some i⟩

theorem Token.length_row (count : Nat) : (Token.row count).length = count := by
  simp [Token.row]

theorem Token.inOrder_row (count : Nat) : InOrder (Token.row count) :=
  ⟨List.range count, by simp [Token.row, Function.comp_def], List.pairwise_lt_range⟩

theorem Phrase.Layout.alone {t : Tier} {first : Phrase t.operand} {m : Node}
    (h : first.Layout m) : (Phrase.joined first .nil).Layout (.joining t [m] []) :=
  .joined h .nil rfl (Token.inOrder_row 0) (Node.joins_joining _ _ _)

/-- Tokens with the given images. -/
def Token.ofImages (images : List String) : List Token :=
  images.map fun image => ⟨image, none⟩

theorem Token.map_image_ofImages (images : List String) :
    (Token.ofImages images).map Token.image = images := by
  simp [Token.ofImages, Function.comp_def]

theorem Node.exists_calls (callee : Callee) (arguments : List Node) (members : List String) :
    ∃ n : Node, n.Calls callee arguments members :=
  ⟨.mk _ [("Plot", _), ("Identifier", _), ("LParen", [.token ⟨"(", none⟩]), ("args", _),
      ("RParen", [.token ⟨")", none⟩]), ("Dot", _)],
    .intro (Listing.of_mk _ _) (Token.map_image_ofImages _) (Token.map_image_ofImages _)
      (Token.length_row _) (Node.consists_mk _ _)⟩

mutual

/-- Every phrase has a layout. -/
theorem Phrase.exists_layout {l : Level} : (p : Phrase l) → ∃ n, p.Layout n
  | .expression p =>
    let ⟨_, hp⟩ := p.exists_layout
    ⟨_, .expression hp (Node.consists_mk _ _)⟩
  | .joined first rest =>
    let ⟨_, hfirst⟩ := first.exists_layout
    let ⟨_, hrest⟩ := rest.exists_layout
    ⟨_, .joined hfirst hrest (Token.length_row _) (Token.inOrder_row _) (Node.joins_joining _ _ _)⟩
  | .negated p =>
    let ⟨m, hp⟩ := p.exists_layout
    ⟨.mk _ [("Not", [.token ⟨"!", none⟩]), ("unaryExpression", [.node m])],
      .negated hp (Node.consists_mk _ _)⟩
  | .plain p =>
    let ⟨_, hp⟩ := p.exists_layout
    ⟨_, .plain hp (Node.consists_mk _ _)⟩
  | .group p =>
    let ⟨m, hp⟩ := p.exists_layout
    ⟨.mk _ [("LParen", [.token ⟨"(", none⟩]), ("expression", [.node m]),
        ("RParen", [.token ⟨")", none⟩])],
      .group hp (Node.consists_mk _ _)⟩
  | .array items =>
    let ⟨_, hitems⟩ := Phrase.exists_layouts items
    ⟨.mk _ [("LBracket", [.token ⟨"[", none⟩]), ("arrayElements", _),
        ("RBracket", [.token ⟨"]", none⟩])],
      .array hitems (Listing.of_mk _ _) (Node.consists_mk _ _)⟩
  | .call callee arguments members =>
    let ⟨nodes, harguments⟩ := Phrase.exists_layouts arguments
    let ⟨n, hn⟩ := Node.exists_calls callee nodes members
    ⟨n, .call harguments hn⟩
  | .name _ _ => ⟨_, .name (Token.map_image_ofImages _) (Token.length_row _) (Node.consists_mk _ _)⟩
  | .number image _ _ =>
    ⟨.mk _ [("NumberLiteral", [.token ⟨image, none⟩])], .number (Node.consists_mk _ _)⟩
  | .string quote text =>
    ⟨.mk _ [("StringLiteral", [.token ⟨quote.around text, none⟩])], .string (Node.consists_mk _ _)⟩
  | .bool b =>
    ⟨.mk _ [(if b then "TrueLiteral" else "FalseLiteral", [.token ⟨"", none⟩])],
      .bool (Node.consists_mk _ _)⟩

theorem Links.exists_layout {t : Tier} : (rest : Links t) → ∃ nodes, rest.Layout nodes
  | .nil => ⟨_, .nil⟩
  | .cons _ _ p rest =>
    let ⟨_, hp⟩ := p.exists_layout
    let ⟨_, hrest⟩ := rest.exists_layout
    ⟨_, .cons hp hrest⟩

theorem Phrase.exists_layouts : (ps : List (Phrase .expression)) → ∃ nodes, Phrase.Layouts ps nodes
  | [] => ⟨_, .nil⟩
  | p :: rest =>
    let ⟨_, hp⟩ := p.exists_layout
    let ⟨_, hrest⟩ := Phrase.exists_layouts rest
    ⟨_, .cons hp hrest⟩

end

theorem Sentence.exists_body : (sentence : Sentence) → ∃ n, sentence.Body n
  | .assignment name value =>
    let ⟨nodes, hvalue⟩ := Phrase.exists_layouts value.toList
    ⟨.mk _ [("Identifier", [.token ⟨name, none⟩]), ("expression", nodes.map .node)],
      .assignment hvalue (Node.consists_mk _ _)⟩
  | .highlight arguments =>
    let ⟨_, harguments⟩ := Phrase.exists_layouts arguments
    ⟨_, .highlight harguments (Listing.of_mk _ _) (Node.consists_mk _ _)⟩
  | .expression e =>
    let ⟨n, he⟩ := e.exists_layout
    ⟨n, .expression he⟩

theorem Sentence.exists_layouts : (sentences : List Sentence) →
    ∃ nodes, Sentence.Layouts sentences nodes
  | [] => ⟨_, .nil⟩
  | sentence :: rest =>
    let ⟨body, hbody⟩ := sentence.exists_body
    let ⟨_, hrest⟩ := Sentence.exists_layouts rest
    ⟨.mk (some "statement") [("body", [.node body])] :: _, .cons ⟨rfl, body, hbody, rfl⟩ hrest⟩

/-- Every script has a layout. -/
theorem Sentence.exists_scriptLayout (sentences : List Sentence) :
    ∃ root, Sentence.ScriptLayout sentences root :=
  let ⟨nodes, hnodes⟩ := Sentence.exists_layouts sentences
  ⟨_, nodes, hnodes, Node.consists_mk _ _⟩

end MetricScript
