import MetricScript.Proofs.Grammar.Order

/-! # Reading gives back the phrase

Whatever layout of a phrase is read, the expression is the one that the phrase means. What a node is
read as is settled for each of its shapes; the phrases follow by recursion on their layout. -/

namespace MetricScript

/-! ## One node at a time -/

theorem Node.nodes_of_elements {n : Node} {key : String} {nodes : List Node}
    (h : n.elements key = nodes.map .node) : n.nodes key = nodes := by
  rw [Node.nodes, h, List.filterMap_map]
  exact List.filterMap_some

theorem Node.tokens_of_elements {n : Node} {key : String} {tokens : List Token}
    (h : n.elements key = tokens.map .token) : n.tokens key = tokens := by
  rw [Node.tokens, h, List.filterMap_map]
  exact List.filterMap_some

theorem Node.Consists.has {n : Node} {rule : String} {parts : List (String × List Element)}
    (hn : n.Consists rule parts) {key : String} (hkey : key ∈ Node.vocabulary) :
    n.has key = !((parts.lookup key).getD []).isEmpty := by
  rw [Node.has, hn.elements key hkey]

theorem Node.Consists.nodes {n : Node} {rule : String} {parts : List (String × List Element)}
    (hn : n.Consists rule parts) {key : String} (hkey : key ∈ Node.vocabulary) :
    n.nodes key = ((parts.lookup key).getD []).filterMap Element.node? := by
  rw [Node.nodes, hn.elements key hkey]

theorem Node.Consists.tokens {n : Node} {rule : String} {parts : List (String × List Element)}
    (hn : n.Consists rule parts) {key : String} (hkey : key ∈ Node.vocabulary) :
    n.tokens key = ((parts.lookup key).getD []).filterMap Element.token? := by
  rw [Node.tokens, hn.elements key hkey]

namespace Expr

variable {n m : Node} {nodes : List Node}

theorem ofNode_of_expression (hn : n.Consists "expression" [("logicalExpression", [.node m])]) :
    ofNode n = ofNode m := by
  rw [ofNode_eq, build]
  simp (disch := decide) [Node.comesFrom, hn.rule, Rank.ofRule?_eq_none, hn.nodes, Element.node?]

theorem ofNode_of_not {mark : Token} (hn : n.Consists "unaryExpression"
    [("Not", [.token mark]), ("unaryExpression", [.node m])]) :
    ofNode n = .not (ofNode m) := by
  rw [ofNode_eq, build]
  simp (disch := decide) [Node.comesFrom, hn.rule, Rank.ofRule?_eq_none, hn.nodes, hn.has,
    Element.node?, List.lookup_cons]

theorem ofNode_of_unary (hn : n.Consists "unaryExpression" [("primary", [.node m])]) :
    ofNode n = ofNode m := by
  rw [ofNode_eq, build]
  simp (disch := decide) [Node.comesFrom, hn.rule, Rank.ofRule?_eq_none, hn.nodes, hn.has,
    Element.node?, List.lookup_cons]

theorem ofNode_of_group {left right : Token} (hn : n.Consists "primary"
    [("LParen", [.token left]), ("expression", [.node m]), ("RParen", [.token right])]) :
    ofNode n = ofNode m := by
  rw [ofNode_eq, build]
  simp (disch := decide) [Node.comesFrom, hn.rule, Rank.ofRule?_eq_none, hn.nodes, hn.has,
    Element.node?, List.lookup_cons]

theorem listed_of_listing {parts : List (String × List Element)} {rule key : String}
    {listing : List Element} (hn : n.Consists rule parts) (hkey : key ∈ Node.vocabulary)
    (hparts : (parts.lookup key).getD [] = listing) (hlisting : Listing key nodes listing) :
    listed n key = nodes := by
  have helements : n.elements key = listing := (hn.elements key hkey).trans hparts
  cases hlisting with
  | omitted => simp [listed, Node.firstNode?, Node.nodes, helements]
  | @listed list _ hlist =>
      have hfirst : n.firstNode? key = some list := by
        simp [Node.firstNode?, Node.nodes, helements, Element.node?]
      rw [listed, hfirst]
      exact Node.nodes_of_elements (hlist.elements "expression" (by decide))

theorem ofNode_of_array {listing : List Element} {left right : Token}
    (hlisting : Listing "arrayElements" nodes listing)
    (hn : n.Consists "primary"
      [("LBracket", [.token left]), ("arrayElements", listing), ("RBracket", [.token right])]) :
    ofNode n = .array (nodes.map ofNode) := by
  have hlisted := listed_of_listing hn (by decide) rfl hlisting
  rw [ofNode_eq, build]
  simp (disch := decide) [Node.comesFrom, hn.rule, Rank.ofRule?_eq_none, hn.has, List.lookup_cons,
    hlisted]

theorem withMembers_of_dots {rule : String} {parts : List (String × List Element)}
    {dots : List Token} {names : List String} (hn : n.Consists rule parts)
    (hparts : (parts.lookup "Dot").getD [] = dots.map .token)
    (hdots : dots.length = names.length) (base : Expr) :
    withMembers n base names = base.followed names := by
  cases names with
  | nil => rfl
  | cons name names =>
      have hdot : n.has "Dot" = true := by
        rw [hn.has (by decide), hparts]
        cases dots with
        | nil => cases hdots
        | cons dot dots => rfl
      simp [withMembers, hdot, followed]

theorem callee?_of_call {callee : Callee} {members : List String}
    (hn : n.Calls callee nodes members) : callee? n = some (callee.function, members) := by
  obtain ⟨hlisting, hplots, hnames, hdots, hn⟩ := hn
  have hplot := Node.tokens_of_elements (hn.elements "Plot" (by decide))
  have hidentifiers : identifiers n = callee.identifiers ++ members := by
    rw [identifiers, Node.tokens_of_elements (hn.elements "Identifier" (by decide)), hnames]
  cases callee with
  | identifier name =>
      obtain rfl := List.map_eq_nil_iff.mp hplots
      simp [callee?, Node.firstToken?, hplot, hidentifiers, Callee.identifiers, Callee.function]
  | plot image =>
      obtain ⟨mark, rfl, hmark⟩ := List.map_eq_singleton_iff.mp hplots
      simp [callee?, Node.firstToken?, hplot, hidentifiers, Callee.identifiers, Callee.function,
        hmark]

theorem listed_of_call {callee : Callee} {members : List String}
    (hn : n.Calls callee nodes members) : listed n "args" = nodes := by
  obtain ⟨hlisting, hplots, hnames, hdots, hn⟩ := hn
  exact listed_of_listing hn (by decide) rfl hlisting

theorem ofNode_of_call {callee : Callee} {members : List String}
    (hn : n.Calls callee nodes members) :
    ofNode n = (Expr.call callee.function (nodes.map ofNode)).followed members := by
  have hcallee := callee?_of_call hn
  have hlisted := listed_of_call hn
  obtain ⟨hlisting, hplots, hnames, hdots, hn⟩ := hn
  have hmembers := withMembers_of_dots hn rfl hdots
  rw [ofNode_eq, build]
  simp (disch := decide) [Node.comesFrom, hn.rule, Rank.ofRule?_eq_none, hn.has, List.lookup_cons,
    hlisted, hcallee, hmembers]

theorem identifiers_of_name {first : String} {members : List String} {names dots : List Token}
    (hnames : names.map Token.image = first :: members)
    (hn : n.Consists "primary" [("Identifier", names.map .token), ("Dot", dots.map .token)]) :
    identifiers n = first :: members := by
  rw [identifiers, Node.tokens_of_elements (hn.elements "Identifier" (by decide)), hnames]

theorem ofNode_of_name {first : String} {members : List String} {names dots : List Token}
    (hnames : names.map Token.image = first :: members) (hdots : dots.length = members.length)
    (hn : n.Consists "primary" [("Identifier", names.map .token), ("Dot", dots.map .token)]) :
    ofNode n = (Expr.variable first).followed members := by
  have hmembers := withMembers_of_dots hn rfl hdots
  rw [ofNode_eq, build]
  simp (disch := decide) [Node.comesFrom, hn.rule, Rank.ofRule?_eq_none, hn.has, List.lookup_cons,
    identifiers_of_name hnames hn, hmembers]

theorem ofNode_of_number {image : String} {x : Float} {offset : Option Nat}
    (h : Decimal.literal? image = some x)
    (hn : n.Consists "primary" [("NumberLiteral", [.token ⟨image, offset⟩])]) :
    ofNode n = .literal (.number x) := by
  rw [ofNode_eq, build]
  simp (disch := decide) [Node.comesFrom, hn.rule, Rank.ofRule?_eq_none, hn.has, List.lookup_cons,
    identifiers, hn.tokens, ofLiteral, Node.firstToken?, Element.token?, h]

theorem unquote_around (quote : Quote) (text : String) : unquote (quote.around text) = text := by
  cases quote <;> simp [unquote, Quote.around, Quote.char]

theorem ofNode_of_string {quote : Quote} {text : String} {offset : Option Nat}
    (hn : n.Consists "primary" [("StringLiteral", [.token ⟨quote.around text, offset⟩])]) :
    ofNode n = .literal (.string text) := by
  rw [ofNode_eq, build]
  simp (disch := decide) [Node.comesFrom, hn.rule, Rank.ofRule?_eq_none, hn.has, List.lookup_cons,
    identifiers, hn.tokens, ofLiteral, Node.firstToken?, Element.token?, unquote_around]

theorem ofNode_of_bool {b : Bool} {mark : Token} (hn : n.Consists "primary"
    [(if b then "TrueLiteral" else "FalseLiteral", [.token mark])]) :
    ofNode n = .literal (.bool b) := by
  rw [ofNode_eq, build]
  cases b <;>
    simp (disch := decide) [Node.comesFrom, hn.rule, Rank.ofRule?_eq_none, hn.has, List.lookup_cons,
      identifiers, hn.tokens, ofLiteral, Node.firstToken?, Element.token?]

theorem ofOperands_of_links (first : Expr) (links : List (Operator × Expr)) :
    ofOperands (first :: links.map Prod.snd) (links.map Prod.fst) = first.joined links := by
  cases links with
  | nil => rfl
  | cons link links =>
      have hzip : ((link :: links).map Prod.fst).zip ((link :: links).map Prod.snd) =
          link :: links := (List.zip_of_prod rfl rfl).symm
      exact congrArg (Expr.chain first) hzip

theorem ofNode_of_tier {t : Tier} (hn : n.rule = some (Level.tier t).rule) :
    ofNode n = ofOperands ((n.nodes t.operand.rule).map ofNode) (t.rank.operatorsOf n) := by
  have hrank : n.rule.bind Rank.ofRule? = some t.rank := by
    rw [hn, Option.bind_some, t.ofRule?_rule]
  rw [ofNode_eq, build]
  simp only [hrank, t.operand_rank]

theorem ofNode_of_joins {t : Tier} {tokens : List Token} {operators : List Operator}
    {links : List (Operator × Expr)} (hn : n.Joins t (m :: nodes) (tokens.zip operators))
    (hlength : tokens.length = operators.length) (horder : InOrder tokens)
    (htier : ∀ op ∈ operators, op.tier = t) (hoperators : links.map Prod.fst = operators)
    (hoperands : links.map Prod.snd = nodes.map ofNode) :
    ofNode n = (ofNode m).joined links := by
  have hnodes : n.nodes t.operand.rule = m :: nodes := Node.nodes_of_elements hn.operands
  rw [ofNode_of_tier hn.rule, hnodes, hn.operatorsOf hlength horder htier, List.map_cons,
    ← hoperands, ← hoperators, ofOperands_of_links]

end Expr

/-! ## Expressions -/

mutual

/-- A layout of a phrase is read as what the phrase means. -/
theorem Phrase.Layout.ofNode_eq {l : Level} {p : Phrase l} {n : Node} :
    p.Layout n → Expr.ofNode n = p.meaning
  | .expression hp hn => (Expr.ofNode_of_expression hn).trans hp.ofNode_eq
  | .joined hfirst hrest hlength horder hn => by
    rw [Expr.ofNode_of_joins hn hlength horder (fun _ => Links.tier_of_mem _)
      (Links.map_fst_meaning _) hrest.map_ofNode.symm, hfirst.ofNode_eq]
    rfl
  | .negated hp hn => by
    rw [Expr.ofNode_of_not hn, hp.ofNode_eq]
    rfl
  | .plain hp hn => (Expr.ofNode_of_unary hn).trans hp.ofNode_eq
  | .group hp hn => (Expr.ofNode_of_group hn).trans hp.ofNode_eq
  | .array hitems hlisting hn => by
    rw [Expr.ofNode_of_array hlisting hn, hitems.map_ofNode]
    rfl
  | .call harguments hn => by
    rw [Expr.ofNode_of_call hn, harguments.map_ofNode]
    rfl
  | .name hnames hdots hn => Expr.ofNode_of_name hnames hdots hn
  | .number (h := h) hn => Expr.ofNode_of_number h hn
  | .string hn => Expr.ofNode_of_string hn
  | .bool hn => Expr.ofNode_of_bool hn

theorem Links.Layout.map_ofNode {t : Tier} {rest : Links t} {nodes : List Node} :
    rest.Layout nodes → nodes.map Expr.ofNode = rest.meaning.map Prod.snd
  | .nil => rfl
  | .cons hp hrest => by
    rw [List.map_cons, hp.ofNode_eq, hrest.map_ofNode]
    rfl

theorem Phrase.Layouts.map_ofNode {ps : List (Phrase .expression)} {nodes : List Node} :
    Phrase.Layouts ps nodes → nodes.map Expr.ofNode = Phrase.meanings ps
  | .nil => rfl
  | .cons hp hrest => by
    rw [List.map_cons, hp.ofNode_eq, hrest.map_ofNode]
    rfl

end

/-! ## What an expression begins with -/

/-- How far a level is below that of whole expressions. -/
def Level.depth : Level → Nat
  | .expression => 0
  | .tier .logical => 1
  | .tier .comparison => 2
  | .tier .additive => 3
  | .tier .multiplicative => 4
  | .unary => 5
  | .primary => 6

/-- The rules on the way from a level down to the primary. -/
def Level.path (l : Level) : List String :=
  ["logicalExpression", "comparisonExpression", "additiveExpression", "multiplicativeExpression",
    "unaryExpression", "primary"].drop l.depth

theorem Tier.path_operand (t : Tier) : (Level.tier t).path = t.operand.rule :: t.operand.path := by
  cases t <;> rfl

/-- What a primary is named, and the expressions that it has as arguments. -/
def Node.opening? (primary : Node) : Option (String × List Expr) :=
  (Expr.callee? primary).map fun callee => (callee.1, Expr.argumentsOf primary)

theorem Node.opening?_of_call {n : Node} {callee : Callee} {nodes : List Node}
    {members : List String} (hn : n.Calls callee nodes members) :
    n.opening? = some (callee.function, nodes.map Expr.ofNode) := by
  rw [Node.opening?, Expr.callee?_of_call hn, Expr.argumentsOf, Expr.listed_of_call hn,
    Option.map_some]

theorem Node.opening?_of_name {n : Node} {first : String} {members : List String}
    {names dots : List Token} (hnames : names.map Token.image = first :: members)
    (hn : n.Consists "primary" [("Identifier", names.map .token), ("Dot", dots.map .token)]) :
    n.opening? = some (first, []) := by
  have hlisted := Expr.listed_of_listing hn (show "args" ∈ Node.vocabulary by decide) rfl .omitted
  have hplot : n.tokens "Plot" = [] := hn.tokens (by decide)
  simp [Node.opening?, Expr.callee?, Node.firstToken?, hplot, Expr.identifiers_of_name hnames hn,
    Expr.argumentsOf, hlisted]

theorem Node.opening?_of_nameless {n : Node} {parts : List (String × List Element)}
    (hn : n.Consists "primary" parts) (hplot : parts.lookup "Plot" = none)
    (hidentifier : parts.lookup "Identifier" = none) : n.opening? = none := by
  simp (disch := decide) [Node.opening?, Expr.callee?, Expr.identifiers, Node.firstToken?,
    hn.tokens, hplot, hidentifier]

/-- The first nodes lead to the primary that a phrase begins with. -/
theorem Phrase.Layout.opening {l : Level} {p : Phrase l} {n : Node} (h : p.Layout n) :
    (l.path.foldlM Node.firstNode? n).bind Node.opening? =
      p.opening?.map (Prod.map id fun arguments => Phrase.meanings (arguments.getD [])) := by
  cases h with
  | @expression _ m _ hp hn =>
      have hfirst : n.firstNode? "logicalExpression" = some m := by
        simp (disch := decide) [Node.firstNode?, hn.nodes, Element.node?]
      have hpath : Level.path .expression = "logicalExpression" :: Level.path (.tier .logical) :=
        rfl
      rw [hpath, List.foldlM_cons, hfirst]
      exact hp.opening
  | @joined t _ _ m _ _ _ hfirst hrest hlength horder hn =>
      have hnode : n.firstNode? t.operand.rule = some m := by
        rw [Node.firstNode?, Node.nodes_of_elements hn.operands, List.head?_cons]
      rw [t.path_operand, List.foldlM_cons, hnode]
      exact hfirst.opening
  | negated hp hn =>
      have hfirst : n.firstNode? "primary" = none := by
        simp (disch := decide) [Node.firstNode?, hn.nodes, List.lookup_cons]
      have hpath : Level.path .unary = ["primary"] := rfl
      rw [hpath, List.foldlM_cons, hfirst]
      rfl
  | @plain _ m _ hp hn =>
      have hfirst : n.firstNode? "primary" = some m := by
        simp (disch := decide) [Node.firstNode?, hn.nodes, Element.node?]
      have hpath : Level.path .unary = "primary" :: Level.path .primary := rfl
      rw [hpath, List.foldlM_cons, hfirst]
      exact hp.opening
  | call harguments hn =>
      refine (Node.opening?_of_call hn).trans ?_
      rw [harguments.map_ofNode]
      rfl
  | name hnames hdots hn => exact Node.opening?_of_name hnames hn
  | group hp hn => exact Node.opening?_of_nameless hn rfl rfl
  | array hitems hlisting hn => exact Node.opening?_of_nameless hn rfl rfl
  | number hn => exact Node.opening?_of_nameless hn rfl rfl
  | string hn => exact Node.opening?_of_nameless hn rfl rfl
  | @bool b _ _ hn => cases b <;> exact Node.opening?_of_nameless hn rfl rfl

end MetricScript
