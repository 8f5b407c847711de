import MetricScript.Proofs.Grammar.Reading

/-! # Reading gives back the script

A statement is read as what it is written as, and a script as its statements in order. -/

namespace MetricScript

/-! ## Statements -/

/-- The token that a plot call is found by names what is called. -/
theorem Expr.map_fst_callee? (n : Node) :
    (callee? n).map Prod.fst =
      ((n.firstToken? "Plot").or (n.firstToken? "Identifier")).map Token.image := by
  unfold callee? identifiers Node.firstToken?
  cases (n.tokens "Plot").head? with
  | some t => rfl
  | none => cases n.tokens "Identifier" <;> rfl

/-- A plot call is found by what an expression begins with. -/
theorem Statement.map_plotCall? (n : Node) :
    (plotCall? n).map Expr.argumentsOf =
      (((leadingPrimary? n).bind Node.opening?).filter fun o =>
        Text.equalsFolded o.1 "plot").map Prod.snd := by
  cases hprimary : leadingPrimary? n with
  | none => simp [plotCall?, hprimary]
  | some primary =>
      have hname := Expr.map_fst_callee? primary
      cases htoken : (primary.firstToken? "Plot").or (primary.firstToken? "Identifier") with
      | none =>
          rw [htoken, Option.map_none, Option.map_eq_none_iff] at hname
          simp [plotCall?, hprimary, Node.opening?, htoken, hname]
      | some token =>
          rw [htoken, Option.map_some] at hname
          obtain ⟨callee, hcallee, himage⟩ := Option.map_eq_some_iff.mp hname
          by_cases hplot : Text.equalsFolded token.image "plot" <;>
            simp [plotCall?, hprimary, Node.opening?, htoken, hcallee, himage, Option.filter, hplot]

theorem Phrase.Layout.rule_eq {e : Phrase .expression} {n : Node} (h : e.Layout n) :
    n.rule = some "expression" := by
  cases h with
  | expression hp hn => exact hn.rule

/-- An expression by itself is read as a plot or as an expression, by what it begins with. -/
theorem Phrase.Layout.ofBody {e : Phrase .expression} {n : Node} (h : e.Layout n) :
    Statement.ofBody "expression" n = (Sentence.expression e).reading := by
  have hcall : (Statement.plotCall? n).map Expr.argumentsOf =
      (e.opening?.filter fun o => Text.equalsFolded o.1 "plot").map fun o =>
        Phrase.meanings (o.2.getD []) := by
    have hopening : (Statement.leadingPrimary? n).bind Node.opening? =
        e.opening?.map (Prod.map id fun arguments => Phrase.meanings (arguments.getD [])) :=
      h.opening
    rw [Statement.map_plotCall?, hopening, Option.filter_map, Option.map_map]
    rfl
  simp only [Statement.ofBody, Sentence.reading]
  cases hfound : e.opening?.filter fun o => Text.equalsFolded o.1 "plot" with
  | none =>
      rw [hfound, Option.map_none, Option.map_eq_none_iff] at hcall
      simp only [hcall, h.ofNode_eq]
  | some opening =>
      rw [hfound, Option.map_some] at hcall
      obtain ⟨primary, hprimary, harguments⟩ := Option.map_eq_some_iff.mp hcall
      simp only [hprimary, harguments]

/-- What is laid out as the body of a statement is read as that statement. -/
theorem Sentence.Body.ofBody {sentence : Sentence} {n : Node} (h : sentence.Body n) :
    ∃ rule, n.rule = some rule ∧ Statement.ofBody rule n = sentence.reading := by
  cases h with
  | @assignment name value n nodes offset hvalue hn =>
      refine ⟨"assignment", hn.rule, ?_⟩
      have hname : n.firstToken? "Identifier" = some ⟨name, offset⟩ := by
        simp (disch := decide) [Node.firstToken?, hn.tokens, Element.token?]
      have hnodes : n.nodes "expression" = nodes :=
        Node.nodes_of_elements (hn.elements _ (by decide))
      have hmeaning : (n.firstNode? "expression").map Expr.ofNode = value.map Phrase.meaning := by
        rw [Node.firstNode?, hnodes, ← List.head?_map, hvalue.map_ofNode]
        cases value <;> rfl
      simp [Statement.ofBody, hname, hmeaning, reading]
  | highlight harguments hlisting hn =>
      refine ⟨"highlightStmt", hn.rule, ?_⟩
      have hlisted := Expr.listed_of_listing hn (by decide) rfl hlisting
      simp [Statement.ofBody, Expr.argumentsOf, hlisted, harguments.map_ofNode, reading]
  | expression he => exact ⟨"expression", he.rule_eq, he.ofBody⟩

/-- What is laid out as a statement is read as that statement. -/
theorem Sentence.Layout.ofNode? {sentence : Sentence} {n : Node} (h : sentence.Layout n) :
    Statement.ofNode? n = some sentence.reading := by
  obtain ⟨body, hbody, hchild⟩ := h.child
  obtain ⟨rule, hrule, hreading⟩ := hbody.ofBody
  simp [Statement.ofNode?, Statement.body?, hchild, Element.node?, hrule, hreading]

theorem Sentence.Layouts.filterMap_ofNode? {sentences : List Sentence} {nodes : List Node}
    (h : Sentence.Layouts sentences nodes) :
    nodes.filterMap Statement.ofNode? = sentences.map Sentence.reading := by
  induction h with
  | nil => rfl
  | cons h hrest ih => rw [List.filterMap_cons_some h.ofNode?, ih, List.map_cons]

/-! ## Scripts -/

/-- Reading undoes the layout. Every phrase has a layout, and whichever of them is read, the
expression is the one that the phrase means; the statements of a script are those that it was laid
out from, in order, and they are what its sentences mean unless one of these begins with the name
`plot` without calling it. -/
theorem Script.reading_of_layout :
    (∀ {l : Level} (p : Phrase l), (∃ n, p.Layout n) ∧
      ∀ n, p.Layout n → Expr.ofNode n = p.meaning) ∧
    ∀ sentences : List Sentence, (∃ root, Sentence.ScriptLayout sentences root) ∧
      ∀ root, Sentence.ScriptLayout sentences root →
        (Script.ofTree root).statements = sentences.map Sentence.reading ∧
        ((∀ sentence ∈ sentences, sentence.beginsBare = false) →
          (Script.ofTree root).statements = sentences.map Sentence.meaning) := by
  refine ⟨fun p => ⟨p.exists_layout, fun n h => h.ofNode_eq⟩, fun sentences =>
    ⟨Sentence.exists_scriptLayout sentences, ?_⟩⟩
  rintro root ⟨nodes, hnodes, hroot⟩
  have hread : (Script.ofTree root).statements = sentences.map Sentence.reading := by
    have hstatements : root.nodes "statement" = nodes :=
      Node.nodes_of_elements (hroot.elements _ (by decide))
    simp [Script.ofTree, Node.comesFrom, hroot.rule, hstatements, hnodes.filterMap_ofNode?]
  refine ⟨hread, fun hcalled => hread.trans (List.map_congr_left fun sentence h => ?_)⟩
  exact sentence.reading_eq_meaning_iff.mpr (hcalled sentence h)

/-- A variable as an operand. -/
def Phrase.operand (name : String) : Phrase (.tier .multiplicative) :=
  .joined (.plain (.name name [])) .nil

/-- A layout of a variable as an operand. -/
def Node.operand (name : String) : Node :=
  .joining .multiplicative
    [.mk (some "unaryExpression")
      [("primary", [.node (.mk (some "primary")
        [("Identifier", [.token ⟨name, none⟩]), ("Dot", [])])])]] []

theorem Phrase.layout_operand (name : String) : (operand name).Layout (.operand name) := by
  have hname : (Phrase.name name []).Layout (.mk (some "primary")
      [("Identifier", [.token ⟨name, none⟩]), ("Dot", [])]) :=
    .name (Token.map_image_ofImages [name]) (Token.length_row 0) (Node.consists_mk _ _)
  exact (Phrase.Layout.plain hname (Node.consists_mk _ _)).alone

/-- The phrase `a - b + c`. -/
def Phrase.difference : Phrase (.tier .additive) :=
  .joined (operand "a") (.cons .subtract rfl (operand "b") (.cons .add rfl (operand "c") .nil))

/-- A layout of `a - b + c`, in which the list of additions comes before that of subtractions. -/
def Node.difference : Node :=
  .joining .additive [.operand "a", .operand "b", .operand "c"]
    [(⟨"-", some 2⟩, .subtract), (⟨"+", some 6⟩, .add)]

theorem Phrase.layout_difference : Phrase.difference.Layout .difference := by
  have horder : InOrder [⟨"-", some 2⟩, ⟨"+", some 6⟩] := ⟨[2, 6], rfl, by decide⟩
  exact .joined (layout_operand "a") (.cons (layout_operand "b") (.cons (layout_operand "c") .nil))
    rfl horder (Node.joins_joining _ _ _)

/-- The script that assigns `a - b + c` to `x` and has a highlight. -/
def Sentence.assigning : List Sentence :=
  [.assignment "x" (some (.expression (.joined (.joined .difference .nil) .nil))), .highlight []]

/-- A layout of that script. -/
def Node.assigning : Node :=
  .mk (some "script")
    [("statement",
      [.node (.mk (some "statement") [("assignment", [.node (.mk (some "assignment")
        [("Identifier", [.token ⟨"x", some 0⟩]),
          ("expression", [.node (.mk (some "expression")
            [("logicalExpression", [.node (.joining .logical
              [.joining .comparison [.difference] []] [])])])])])])]),
        .node (.mk (some "statement") [("highlightStmt", [.node (.mk (some "highlightStmt")
          [("args", [])])])])])]

theorem Sentence.scriptLayout_assigning : ScriptLayout assigning .assigning := by
  have hvalue := Phrase.Layout.expression Phrase.layout_difference.alone.alone
    (Node.consists_mk _ _)
  have hassignment : (Sentence.assignment "x" (some _)).Body (.mk (some "assignment")
      [("Identifier", [.token ⟨"x", some 0⟩]), ("expression", [.node _])]) :=
    .assignment (.cons hvalue .nil) (Node.consists_mk _ _)
  have hhighlight : (Sentence.highlight []).Body (.mk (some "highlightStmt") [("args", [])]) :=
    .highlight .nil .omitted (Node.consists_mk _ _)
  exact ⟨_, .cons ⟨rfl, _, hassignment, rfl⟩ (.cons ⟨rfl, _, hhighlight, rfl⟩ .nil),
    Node.consists_mk _ _⟩

theorem Script.reading_of_layout_assigning :
    Phrase.difference.Layout .difference ∧
    Expr.ofNode .difference =
      .chain (.variable "a") [(.subtract, .variable "b"), (.add, .variable "c")] ∧
    Sentence.ScriptLayout Sentence.assigning .assigning ∧
    (Script.ofTree .assigning).statements =
      [.assignment "x" (some (.chain (.variable "a")
        [(.subtract, .variable "b"), (.add, .variable "c")])), .highlight []] :=
  ⟨Phrase.layout_difference, (reading_of_layout.1 _).2 _ Phrase.layout_difference,
    Sentence.scriptLayout_assigning,
    ((reading_of_layout.2 _).2 _ Sentence.scriptLayout_assigning).2 (by decide)⟩

end MetricScript
