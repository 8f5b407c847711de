import MetricScript.Proofs.Grammar.Script

/-! # Which operands are kept

A node of a tier has operands in one list and the tokens of operators in others, in any numbers.
Read as an expression it keeps them as far as they go in pairs: all of them exactly if there is one
operand more than there are operators. What is left over is dropped without a word. -/

namespace MetricScript

theorem map_fst_zip_eq_take {α β : Type} (xs : List α) (ys : List β) :
    (xs.zip ys).map Prod.fst = xs.take ys.length := by
  induction xs generalizing ys with
  | nil => simp
  | cons x xs ih => cases ys <;> simp [ih]

theorem map_snd_zip_eq_take {α β : Type} (xs : List α) (ys : List β) :
    (xs.zip ys).map Prod.snd = ys.take xs.length := by
  induction xs generalizing ys with
  | nil => simp
  | cons x xs ih => cases ys <;> simp [ih]

namespace Expr

/-! ## Operands joined by operators -/

/-- The expression joins these operands, in order, by these operators, one between any two. -/
inductive Joins : Expr → List Expr → List Operator → Prop where
  | lone (e : Expr) : Joins e [e] []
  | chain (first : Expr) (links : List (Operator × Expr)) :
      Joins (.chain first links) (first :: links.map Prod.snd) (links.map Prod.fst)

theorem Joins.length_eq {e : Expr} {operands : List Expr} {operators : List Operator}
    (h : Joins e operands operators) : operands.length = operators.length + 1 := by
  cases h <;> simp

/-- Operands and operators are kept as far as they go in pairs. -/
theorem joins_ofOperands {operands : List Expr} (h : operands ≠ []) (operators : List Operator) :
    Joins (ofOperands operands operators) (operands.take (operators.length + 1))
      (operators.take (operands.length - 1)) := by
  cases operands with
  | nil => exact (h rfl).elim
  | cons first rest =>
      cases operators with
      | nil => simpa [ofOperands] using Joins.lone first
      | cons op operators =>
          have hchain := Joins.chain first ((op :: operators).zip rest)
          rwa [map_fst_zip_eq_take, map_snd_zip_eq_take] at hchain

/-- Everything is kept exactly if the numbers are right. -/
theorem joins_ofOperands_iff (operands : List Expr) (operators : List Operator) :
    Joins (ofOperands operands operators) operands operators ↔
      operands.length = operators.length + 1 := by
  constructor
  · intro h
    exact h.length_eq
  · intro hlength
    have hne : operands ≠ [] := by
      intro hnil
      simp [hnil] at hlength
    have hjoins := joins_ofOperands hne operators
    rwa [List.take_of_length_le (Nat.le_of_eq hlength),
      List.take_of_length_le (by omega)] at hjoins

end Expr

/-! ## Nodes of a tier -/

/-- Putting operators into the order written neither loses one nor adds one. -/
theorem Rank.operatorsOf_perm (rank : Rank) (n : Node) :
    (rank.operatorsOf n).Perm ((rank.operatorTokens n).map Prod.snd) := by
  unfold operatorsOf
  refine List.Perm.map Prod.snd ?_
  split
  · exact List.mergeSort_perm _ _
  · exact List.Perm.refl _

namespace Expr

/-- Read as an expression, a node of a tier keeps operands and operators as far as they go in pairs,
hence all of them exactly if there is one operand more. The operators are those of the tokens that
the tier knows, and without an operand nothing is left. -/
theorem joins_of_tier (t : Tier) (n : Node) (hn : n.rule = some (Level.tier t).rule) :
    let operands := (n.nodes t.operand.rule).map ofNode
    let operators := t.rank.operatorsOf n
    operators.Perm ((t.rank.operatorTokens n).map Prod.snd) ∧
    (operands = [] → ofNode n = .unsupported) ∧
    (operands ≠ [] → Joins (ofNode n) (operands.take (operators.length + 1))
      (operators.take (operands.length - 1))) ∧
    (Joins (ofNode n) operands operators ↔ operands.length = operators.length + 1) := by
  intro operands operators
  have hbuilt : ofNode n = ofOperands operands operators := ofNode_of_tier hn
  refine ⟨t.rank.operatorsOf_perm n, ?_, ?_, ?_⟩
  · intro hnil
    rw [hbuilt, hnil, ofOperands]
  · intro hne
    rw [hbuilt]
    exact joins_ofOperands hne operators
  · rw [hbuilt]
    exact joins_ofOperands_iff operands operators

end Expr

/-! ### Variables side by side -/

/-- Variables in a row and operators in a row, to be paired up. -/
def Node.variables (names : List String) (operators : List Operator) : Node :=
  .joining .additive (names.map .operand) ((Token.row operators.length).zip operators)

namespace Expr

theorem map_ofNode_variables (names : List String) (operators : List Operator) :
    ((Node.variables names operators).nodes (Level.tier .multiplicative).rule).map ofNode =
      names.map .variable := by
  have hnodes : (Node.variables names operators).nodes (Level.tier .multiplicative).rule =
      names.map .operand :=
    Node.nodes_of_elements (Node.joins_joining .additive _ _).operands
  rw [hnodes, List.map_map]
  refine List.map_congr_left fun name _ => ?_
  exact (Phrase.layout_operand name).ofNode_eq

theorem operatorsOf_variables (names : List String) (operators : List Operator)
    (h : ∀ op ∈ operators, op.tier = .additive) :
    Tier.additive.rank.operatorsOf (.variables names operators) = operators :=
  (Node.joins_joining .additive _ _).operatorsOf (Token.length_row _) (Token.inOrder_row _) h

/-- Of `a + b c` the last operand is dropped. -/
theorem joins_of_tier_excess :
    (Node.variables ["a", "b", "c"] [.add]).rule = some (Level.tier .additive).rule ∧
    Joins (ofNode (.variables ["a", "b", "c"] [.add])) [.variable "a", .variable "b"] [.add] := by
  have hrule : (Node.variables ["a", "b", "c"] [.add]).rule =
      some (Level.tier .additive).rule := rfl
  have hkept := (joins_of_tier .additive _ hrule).2.2.1
  simp only [Tier.operand, map_ofNode_variables,
    operatorsOf_variables ["a", "b", "c"] [.add] (by decide)] at hkept
  exact ⟨hrule, hkept (by simp)⟩

/-- Operands need not all be kept even where something is made of a node: of `a b`, without an
operator, only the first is. -/
theorem not_joins_or_unsupported :
    ¬ ∀ (t : Tier) (n : Node), n.rule = some (Level.tier t).rule →
      (∃ operators, Joins (ofNode n) ((n.nodes t.operand.rule).map ofNode) operators) ∨
        ofNode n = .unsupported := by
  intro hall
  have hrule : (Node.variables ["a", "b"] []).rule = some (Level.tier .additive).rule := rfl
  have hfirst : ofNode (.variables ["a", "b"] []) = .variable "a" := by
    rw [ofNode_of_tier hrule, operatorsOf_variables ["a", "b"] [] (by simp)]
    simp only [Tier.operand, map_ofNode_variables, List.map_cons, ofOperands]
  rcases hall .additive _ hrule with ⟨operators, hjoins⟩ | hunsupported
  · simp only [Tier.operand, map_ofNode_variables, hfirst] at hjoins
    cases hjoins
  · rw [hfirst] at hunsupported
    cases hunsupported

end Expr

end MetricScript
