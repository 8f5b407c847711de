import MetricScript.Proofs.Grammar.Script

/-! # Which statements are plots

An expression by itself is a plot if the primary that it begins with is a call of `plot`. Whether it
is one is seen from a single token, while reading decides by the brackets that a primary has. The
two agree wherever a primary of that name is written as a call. -/

namespace MetricScript

/-! ## Shapes of primaries -/

namespace Node

/-- A node that is read as a primary: it comes from the rule of no other level. -/
def IsPrimary (n : Node) : Prop :=
  ∀ l : Level, n.rule = some l.rule → l = .primary

/-- A node with an expression between parentheses. -/
def IsGroup (n : Node) : Prop :=
  n.has "LParen" ∧ n.has "expression" ∧ n.has "RParen"

/-- A primary that is neither a group nor an array and has parentheses. -/
structure IsCall (n : Node) : Prop where
  isPrimary : n.IsPrimary
  not_isGroup : ¬ n.IsGroup
  not_isArray : ¬ (n.has "LBracket" ∧ n.has "RBracket")
  left : n.has "LParen"
  right : n.has "RParen"

variable {n : Node}

theorem IsPrimary.ofRule? (h : n.IsPrimary) : n.rule.bind Rank.ofRule? = none := by
  cases hrule : n.rule with
  | none => rfl
  | some rule =>
      rw [Option.bind_some]
      unfold Rank.ofRule?
      split
      · cases h (.tier .logical) hrule
      · cases h (.tier .comparison) hrule
      · cases h (.tier .additive) hrule
      · cases h (.tier .multiplicative) hrule
      · rfl

theorem IsPrimary.comesFrom {l : Level} (h : n.IsPrimary) (hl : l ≠ .primary) :
    n.comesFrom l.rule = false := by
  rw [Node.comesFrom, beq_eq_false_iff_ne]
  intro hrule
  exact hl (h l hrule)

theorem IsPrimary.of_rule (h : n.rule = some "primary") : n.IsPrimary := by
  intro l hl
  rw [h, Option.some.injEq] at hl
  cases l with
  | primary => rfl
  | expression => exact absurd hl (by decide)
  | tier t => cases t <;> exact absurd hl (by decide)
  | unary => exact absurd hl (by decide)

end Node

/-! ## What reading makes a call of -/

namespace Expr

/-- A call of a function with arguments, perhaps with members behind it. -/
inductive CallOf (function : String) (arguments : List Expr) : Expr → Prop where
  | call : CallOf function arguments (.call function arguments)
  | member (properties : List String) :
      CallOf function arguments (.member (.call function arguments) properties)

variable {n : Node} {function : String} {arguments : List Expr}

theorem callOf_withMembers_iff (n : Node) (g : String) (items : List Expr) (names : List String) :
    CallOf function arguments (withMembers n (.call g items) names) ↔
      (g, items) = (function, arguments) := by
  constructor
  · intro h
    unfold withMembers at h
    split at h
    · cases h with
      | call => rfl
    · cases h with
      | member => rfl
  · intro h
    cases h
    unfold withMembers
    split
    · exact .call
    · exact .member names

theorem not_callOf_variable (n : Node) (name : String) (names : List String) :
    ¬ CallOf function arguments (withMembers n (.variable name) names) := by
  intro h
  unfold withMembers at h
  split at h <;> cases h

theorem not_callOf_ofLiteral (n : Node) : ¬ CallOf function arguments (ofLiteral n) := by
  intro h
  unfold ofLiteral at h
  split at h
  · next token _ => cases hnumber : Decimal.literal? token.image <;> rw [hnumber] at h <;> cases h
  · split at h
    · cases h
    · split at h
      · cases h
      · split at h <;> cases h

/-- What is no group is read as a call exactly if it has the shape of one, and then as a call of
what its first token names. -/
theorem callOf_ofNode_iff (hprimary : n.IsPrimary) (hgroup : ¬ n.IsGroup) :
    CallOf function arguments (ofNode n) ↔
      n.IsCall ∧ n.opening? = some (function, arguments) := by
  have hexpression : n.comesFrom "expression" = false :=
    hprimary.comesFrom (l := .expression) (by decide)
  have hunary : n.comesFrom "unaryExpression" = false :=
    hprimary.comesFrom (l := .unary) (by decide)
  have hinside : (n.has "LParen" && n.has "expression" && n.has "RParen") = false := by
    simpa [Node.IsGroup, and_assoc] using hgroup
  rw [ofNode_eq, build, hprimary.ofRule?]
  simp only [hexpression, hunary, hinside, Bool.false_eq_true, if_false]
  split
  · next harray =>
      have hnot : ¬ n.IsCall := fun h => h.not_isArray (by simpa using harray)
      refine iff_of_false ?_ fun h => hnot h.1
      intro h
      cases h
  · next harray =>
      split
      · next hparentheses =>
          rw [Bool.and_eq_true] at hparentheses
          have hcall : n.IsCall :=
            ⟨hprimary, hgroup, by simpa using harray, hparentheses.1, hparentheses.2⟩
          rw [Node.opening?]
          cases hcallee : callee? n with
          | some callee =>
              simp only [callOf_withMembers_iff, Option.map_some, Option.some.injEq, hcall,
                true_and]
              rfl
          | none =>
              refine iff_of_false ?_ (by simp)
              intro h
              cases h
      · next hparentheses =>
          have hnot : ¬ n.IsCall := fun h => hparentheses (by simp [h.left, h.right])
          refine iff_of_false ?_ fun h => hnot h.1
          split
          · exact not_callOf_variable n _ _
          · exact not_callOf_ofLiteral n

end Expr

/-! ## Statements -/

namespace Statement

variable {n e : Node}

/-- An expression begins with a primary that is itself a call of `plot`, not a group around one. -/
def BeginsWithPlot (e : Node) (arguments : List Expr) : Prop :=
  ∃ p function, leadingPrimary? e = some p ∧ p.IsPrimary ∧ ¬ p.IsGroup ∧
    Text.equalsFolded function "plot" ∧ Expr.CallOf function arguments (Expr.ofNode p)

/-- If an expression begins with the name `plot` then that name is called. -/
def PlotIsCalled (e : Node) : Prop :=
  ∀ p function arguments, leadingPrimary? e = some p → p.opening? = some (function, arguments) →
    Text.equalsFolded function "plot" → p.IsCall

/-- A plot call is found exactly if an expression begins with the name `plot`. -/
theorem map_plotCall?_eq_some_iff (e : Node) (arguments : List Expr) :
    (plotCall? e).map Expr.argumentsOf = some arguments ↔
      ∃ p function, leadingPrimary? e = some p ∧ p.opening? = some (function, arguments) ∧
        Text.equalsFolded function "plot" := by
  simp only [map_plotCall?, Option.map_eq_some_iff, Option.filter_eq_some_iff,
    Option.bind_eq_some_iff]
  constructor
  · rintro ⟨⟨function, _⟩, ⟨⟨p, hleading, hopening⟩, hplot⟩, rfl⟩
    exact ⟨p, function, hleading, hopening, hplot⟩
  · rintro ⟨p, function, hleading, hopening, hplot⟩
    exact ⟨(function, arguments), ⟨⟨p, hleading, hopening⟩, hplot⟩, rfl⟩

theorem BeginsWithPlot.found {arguments : List Expr} (h : BeginsWithPlot e arguments) :
    (plotCall? e).map Expr.argumentsOf = some arguments := by
  obtain ⟨p, function, hleading, hprimary, hgroup, hplot, hcall⟩ := h
  have hopening := ((Expr.callOf_ofNode_iff hprimary hgroup).mp hcall).2
  exact (map_plotCall?_eq_some_iff e arguments).mpr ⟨p, function, hleading, hopening, hplot⟩

theorem PlotIsCalled.beginsWithPlot (hname : PlotIsCalled e) {arguments : List Expr}
    (h : (plotCall? e).map Expr.argumentsOf = some arguments) : BeginsWithPlot e arguments := by
  obtain ⟨p, function, hleading, hopening, hplot⟩ := (map_plotCall?_eq_some_iff e arguments).mp h
  have hcall : p.IsCall := hname p function arguments hleading hopening hplot
  exact ⟨p, function, hleading, hcall.isPrimary, hcall.not_isGroup, hplot,
    (Expr.callOf_ofNode_iff hcall.isPrimary hcall.not_isGroup).mpr ⟨hcall, hopening⟩⟩

theorem ofNode?_eq_plot_iff (hbody : body? n = some ("expression", e)) (arguments : List Expr) :
    ofNode? n = some (.plot arguments) ↔
      (plotCall? e).map Expr.argumentsOf = some arguments := by
  simp only [ofNode?, hbody, Option.map_some, ofBody]
  cases plotCall? e <;> simp

theorem ofNode?_eq_expression (hbody : body? n = some ("expression", e))
    (hnone : plotCall? e = none) : ofNode? n = some (.expression (Expr.ofNode e)) := by
  simp only [ofNode?, hbody, Option.map_some, ofBody, hnone]

/-- An expression by itself is a plot if it begins with a call of `plot`, and then a plot of the
arguments of that call. Where the name `plot` is called if an expression begins with it, nothing
else is a plot, and what is none is an expression. -/
theorem plot_iff_call (hbody : body? n = some ("expression", e)) :
    (∀ arguments, BeginsWithPlot e arguments → ofNode? n = some (.plot arguments)) ∧
    (PlotIsCalled e →
      (∀ arguments, ofNode? n = some (.plot arguments) → BeginsWithPlot e arguments) ∧
      ((∀ arguments, ¬ BeginsWithPlot e arguments) →
        ofNode? n = some (.expression (Expr.ofNode e)))) := by
  refine ⟨?_, fun hname => ⟨?_, ?_⟩⟩
  · intro arguments h
    exact (ofNode?_eq_plot_iff hbody arguments).mpr h.found
  · intro arguments h
    exact hname.beginsWithPlot ((ofNode?_eq_plot_iff hbody arguments).mp h)
  · intro hnever
    refine ofNode?_eq_expression hbody ?_
    cases hfound : plotCall? e with
    | none => rfl
    | some primary =>
        have hbegins : BeginsWithPlot e (Expr.argumentsOf primary) :=
          hname.beginsWithPlot (by rw [hfound, Option.map_some])
        exact (hnever _ hbegins).elim

end Statement

/-! ### A call and a call within parentheses -/

/-- A primary as a whole expression. -/
def Phrase.whole (p : Phrase .primary) : Phrase .expression :=
  .expression (.joined (.joined (.joined (.joined (.plain p) .nil) .nil) .nil) .nil)

/-- A layout of a primary as a whole expression. -/
def Node.whole (primary : Node) : Node :=
  .mk (some "expression") [("logicalExpression", [.node (.joining .logical
    [.joining .comparison [.joining .additive [.joining .multiplicative
      [.mk (some "unaryExpression") [("primary", [.node primary])]] []] []] []] [])])]

theorem Phrase.Layout.whole {p : Phrase .primary} {primary : Node} (h : p.Layout primary) :
    p.whole.Layout primary.whole := by
  have hunary := Phrase.Layout.plain h (Node.consists_mk _ _)
  exact .expression hunary.alone.alone.alone.alone (Node.consists_mk _ _)

theorem Statement.leadingPrimary?_whole (primary : Node) :
    leadingPrimary? primary.whole = some primary :=
  rfl

/-- The statement of a primary by itself. -/
def Node.standing (primary : Node) : Node :=
  .mk (some "statement") [("expression", [.node primary.whole])]

theorem Statement.body?_standing (primary : Node) :
    body? primary.standing = some ("expression", primary.whole) :=
  rfl

/-- The variable `x` as a primary. -/
def Phrase.x : Phrase .primary := .name "x" []

def Node.x : Node := .mk (some "primary") [("Identifier", [.token ⟨"x", none⟩]), ("Dot", [])]

theorem Phrase.layout_x : Phrase.x.Layout .x :=
  .name (Token.map_image_ofImages ["x"]) (Token.length_row 0) (Node.consists_mk _ _)

/-- The call `Plot(x).y`. -/
def Phrase.plotted : Phrase .primary := .call (.plot "Plot") [x.whole] ["y"]

def Node.plotted : Node :=
  .mk (some "primary") [("Plot", [.token ⟨"Plot", none⟩]), ("Identifier", [.token ⟨"y", none⟩]),
    ("LParen", [.token ⟨"(", none⟩]),
    ("args", [.node (.mk (some "args") [("expression", [.node Node.x.whole])])]),
    ("RParen", [.token ⟨")", none⟩]), ("Dot", [.token ⟨".", none⟩])]

theorem Phrase.layout_plotted : Phrase.plotted.Layout .plotted := by
  have hdots : [Token.mk "." none].length = ["y"].length := rfl
  have hcalls : Node.plotted.Calls (.plot "Plot") [Node.x.whole] ["y"] :=
    .intro (Listing.of_mk "args" [Node.x.whole]) (Token.map_image_ofImages ["Plot"])
      (Token.map_image_ofImages ["y"]) hdots (Node.consists_mk _ _)
  exact .call (.cons layout_x.whole .nil) hcalls

theorem Expr.ofNode_plotted :
    ofNode .plotted = .member (.call "Plot" [.variable "x"]) ["y"] :=
  Phrase.layout_plotted.ofNode_eq

theorem Text.equalsFolded_iff (s t : String) :
    equalsFolded s t ↔ s.toList.map Char.toLower = t.toList.map Char.toLower := by
  rw [equalsFolded, beq_iff_eq, ← String.toList_inj]
  simp only [lowerAscii, String.toList_map]

theorem Text.equalsFolded_plotted : equalsFolded "Plot" "plot" :=
  (equalsFolded_iff _ _).mpr (by decide)

/-- The call within parentheses. -/
def Node.grouped : Node :=
  .mk (some "primary") [("LParen", [.token ⟨"(", none⟩]), ("expression", [.node plotted.whole]),
    ("RParen", [.token ⟨")", none⟩])]

theorem Phrase.layout_grouped : (Phrase.group Phrase.plotted.whole).Layout .grouped :=
  .group layout_plotted.whole (Node.consists_mk _ _)

theorem Expr.ofNode_grouped :
    ofNode .grouped = .member (.call "Plot" [.variable "x"]) ["y"] :=
  Phrase.layout_grouped.ofNode_eq

namespace Statement

/-- `Plot(x).y` is a plot of `x`, and within parentheses it is none. -/
theorem plot_iff_call_plotted :
    ofNode? Node.plotted.standing = some (.plot [.variable "x"]) ∧
    ofNode? Node.grouped.standing =
      some (.expression (.member (.call "Plot" [.variable "x"]) ["y"])) := by
  have hbegins : BeginsWithPlot Node.plotted.whole [.variable "x"] := by
    refine ⟨.plotted, "Plot", leadingPrimary?_whole _, Node.IsPrimary.of_rule rfl, ?_, ?_, ?_⟩
    · rintro ⟨-, hexpression, -⟩
      cases hexpression
    · exact Text.equalsFolded_plotted
    · rw [Expr.ofNode_plotted]
      exact .member ["y"]
  have hname : PlotIsCalled Node.grouped.whole := by
    intro p function arguments hleading hopening
    obtain rfl := Option.some.inj hleading
    cases hopening
  have hnever (arguments : List Expr) : ¬ BeginsWithPlot Node.grouped.whole arguments := by
    rintro ⟨p, function, hleading, -, hgroup, -⟩
    obtain rfl := Option.some.inj hleading
    exact hgroup ⟨rfl, rfl, rfl⟩
  have hgrouped : Expr.ofNode Node.grouped.whole = .member (.call "Plot" [.variable "x"]) ["y"] :=
    Phrase.layout_grouped.whole.ofNode_eq
  refine ⟨(plot_iff_call (body?_standing .plotted)).1 _ hbegins, ?_⟩
  rw [← hgrouped]
  exact ((plot_iff_call (body?_standing .grouped)).2 hname).2 hnever

/-- It is not enough that what an expression begins with is read as a call of `plot`: parentheses
around the call make it an expression. -/
theorem not_plot_iff_read_as_call :
    ¬ ∀ n e : Node, body? n = some ("expression", e) → ∀ arguments,
      ofNode? n = some (.plot arguments) ↔
        ∃ p function, leadingPrimary? e = some p ∧ Text.equalsFolded function "plot" ∧
          Expr.CallOf function arguments (Expr.ofNode p) := by
  intro hall
  have hplot := (hall _ _ (body?_standing .grouped) [.variable "x"]).mpr
    ⟨.grouped, "Plot", leadingPrimary?_whole _, Text.equalsFolded_plotted,
      Expr.ofNode_grouped ▸ .member ["y"]⟩
  rw [ofNode?_eq_plot_iff (body?_standing .grouped)] at hplot
  cases hplot

end Statement

end MetricScript
