import MetricScript.Proofs.Value.Alignment
import MetricScript.Proofs.Value.Truth

/-! # Operands exchanged, answers negated

What is less on one side is greater on the other, and logic does not tell its sides apart. Two
operands are unequal where they are not equal. All of this holds for operands of any kind and time
by time: nothing depends on the side on which a time, a missing point or a text stands. -/

namespace MetricScript.Operator

/-! ## Operands exchanged -/

/-- One operator asks of two operands what the other one asks of them exchanged. -/
structure Mirrors (op op' : Operator) : Prop where
  family_eq : op'.family = op.family
  point_eq : ∀ x y, op.point x y = op'.point y x
  textual?_eq : ∀ a b, op.textual? a b = op'.textual? b a

namespace Mirrors

variable {op op' : Operator}

theorem answer_eq (h : Mirrors op op') (left right : Option Value) (x y : Option Float) :
    op.answer left right x y = op'.answer right left y x := by
  rw [answer, answer, h.textual?_eq, h.point_eq]

theorem apply_eq (h : Mirrors op op') (left right : Option Value) (now : Timestamp) :
    op.apply left right now = op'.apply right left now := by
  have hread (operand : Option Value) : op'.family.read? operand = op.family.read? operand := by
    rw [h.family_eq]
  cases ha : op.family.read? left with
  | none =>
      rw [apply_of_unread (Or.inl ha), apply_of_unread (Or.inr ((hread left).trans ha))]
  | some a =>
      cases hb : op.family.read? right with
      | none =>
          rw [apply_of_unread (Or.inr hb), apply_of_unread (Or.inl ((hread right).trans hb))]
      | some b =>
          rw [apply_of_read? ha hb,
            apply_of_read? ((hread right).trans hb) ((hread left).trans ha),
            Reading.combine_swap]
          simp only [h.answer_eq]

end Mirrors

/-- One text by itself settles nothing but an equality. -/
theorem textual?_eq_none {op : Operator} (hop : op.isEquality = false) {a b : Option String}
    (hone : a.isSome ≠ b.isSome) : op.textual? a b = none := by
  rw [textual?_of_one op hone, hop]
  rfl

theorem textual?_swap {op op' : Operator} (hfamily : op'.family = op.family)
    (hop : op.isEquality = false) (hop' : op'.isEquality = false)
    (hholds : ∀ a b, op.holds a b = op'.holds b a) (a b : Option String) :
    op.textual? a b = op'.textual? b a := by
  by_cases hone : a.isSome ≠ b.isSome
  · rw [textual?_eq_none hop hone, textual?_eq_none hop' hone.symm]
  · cases a with
    | none =>
        cases b with
        | none => rfl
        | some b => simp at hone
    | some a =>
        cases b with
        | none => simp at hone
        | some b => simp only [textual?, hfamily, hholds]

theorem mirrors_less : Mirrors lessThan greaterThan where
  family_eq := rfl
  point_eq _ _ := rfl
  textual?_eq := textual?_swap rfl rfl rfl fun _ _ => rfl

theorem mirrors_lessEqual : Mirrors lessThanEqual greaterThanEqual where
  family_eq := rfl
  point_eq _ _ := rfl
  textual?_eq := textual?_swap rfl rfl rfl fun _ _ => rfl

theorem mirrors_and : Mirrors and and where
  family_eq := rfl
  point_eq x y := by rw [point, point, Bool.and_comm]
  textual?_eq := textual?_swap rfl rfl rfl fun _ _ => rfl

theorem mirrors_or : Mirrors or or where
  family_eq := rfl
  point_eq x y := by rw [point, point, Bool.or_comm]
  textual?_eq := textual?_swap rfl rfl rfl fun _ _ => rfl

/-! ## Answers negated -/

/-- Where an inequality asks about texts, an equality asks about them too. -/
theorem textual?_notEqual (a b : Option String) :
    notEqual.textual? a b = (equal.textual? a b).map (!·) := by
  cases a <;> cases b <;> simp [textual?, holds, family]

theorem answer_notEqual (left right : Option Value) (x y : Option Float) :
    notEqual.answer left right x y =
      indicator (!truthyPoint (some (equal.answer left right x y))) := by
  rw [answer, answer, textual?_notEqual]
  cases equal.textual? (left.bind Value.string?) (right.bind Value.string?) with
  | none => exact congrArg (fun b => indicator (!b)) (truthyPoint_indicator (x == y)).symm
  | some b => exact congrArg (fun b => indicator (!b)) (truthyPoint_indicator b).symm

theorem apply_notEqual (left right : Option Value) (now : Timestamp) :
    notEqual.apply left right now =
      Value.negate (some (.series (equal.apply left right now))) now := by
  have hread (op : Operator) (hop : op.family = .comparison) (operand : Option Value) :
      op.family.read? operand = some (Reading.compared operand) := by
    rw [hop, Family.read?_comparison]
  rw [apply_of_read? (hread notEqual rfl left) (hread notEqual rfl right),
    apply_of_read? (hread equal rfl left) (hread equal rfl right)]
  simp only [Value.negate, Reading.mapValues_combine, answer_notEqual]

/-! ## Both -/

/-- The laws of comparison and logic for operands of any kind, one or both of them missing: an order
is turned round with its operands, logic is the same either way, and an inequality is a negated
equality. -/
theorem mirror_and_complement (left right : Option Value) (now : Timestamp) :
    lessThan.apply left right now = greaterThan.apply right left now ∧
    lessThanEqual.apply left right now = greaterThanEqual.apply right left now ∧
    and.apply left right now = and.apply right left now ∧
    or.apply left right now = or.apply right left now ∧
    notEqual.apply left right now =
      Value.negate (some (.series (equal.apply left right now))) now :=
  ⟨mirrors_less.apply_eq left right now, mirrors_lessEqual.apply_eq left right now,
    mirrors_and.apply_eq left right now, mirrors_or.apply_eq left right now,
    apply_notEqual left right now⟩

end MetricScript.Operator
