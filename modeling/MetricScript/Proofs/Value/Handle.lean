import MetricScript.Proofs.Value.Symmetry
import MetricScript.Run.Expr

/-! # Handles as operands

The first operand of a chain may be a handle. Arithmetic and comparisons make nothing of it, as if
it were missing, but logic takes it for true. -/

namespace MetricScript

namespace Operator

variable {op : Operator} {left left' right right' : Option Value}

/-- Of an operand no more counts than how it is read and, if it is a text, which one. -/
theorem apply_congr (hleft : op.family.read? left = op.family.read? left')
    (hleft_text : left.bind Value.string? = left'.bind Value.string?)
    (hright : op.family.read? right = op.family.read? right')
    (hright_text : right.bind Value.string? = right'.bind Value.string?) (now : Timestamp) :
    op.apply left right now = op.apply left' right' now := by
  cases ha : op.family.read? left' with
  | none => rw [apply_of_unread (Or.inl (hleft.trans ha)), apply_of_unread (Or.inl ha)]
  | some a =>
      cases hb : op.family.read? right' with
      | none => rw [apply_of_unread (Or.inr (hright.trans hb)), apply_of_unread (Or.inr hb)]
      | some b =>
          rw [apply_of_read? (hleft.trans ha) (hright.trans hb), apply_of_read? ha hb]
          simp only [answer, hleft_text, hright_text]

/-! ## What takes the place of a handle -/

/-- What an operator takes a handle for: a truth in logic, and nothing otherwise. -/
def insteadOfHandle (op : Operator) : Option Value :=
  if op.family = .logic then some (.scalar (.bool true)) else none

theorem read?_handle (op : Operator) (handle : Entity) :
    op.family.read? (some (.entity handle)) = op.family.read? op.insteadOfHandle := by
  cases op <;> rfl

theorem string?_insteadOfHandle (op : Operator) :
    op.insteadOfHandle.bind Value.string? = none := by
  cases op <;> rfl

theorem apply_handle_left (op : Operator) (handle : Entity) (other : Option Value)
    (now : Timestamp) :
    op.apply (some (.entity handle)) other now = op.apply op.insteadOfHandle other now :=
  apply_congr (op.read?_handle handle) op.string?_insteadOfHandle.symm rfl rfl now

theorem apply_handle_right (op : Operator) (handle : Entity) (other : Option Value)
    (now : Timestamp) :
    op.apply other (some (.entity handle)) now = op.apply other op.insteadOfHandle now :=
  apply_congr rfl rfl (op.read?_handle handle) op.string?_insteadOfHandle.symm now

/-! ## Handles and missing operands -/

/-- The other operand decides by itself: it is false wherever it stands in a conjunction, or true
wherever it stands in a disjunction. -/
def Decides (op : Operator) (other : Option Value) : Prop :=
  ∀ truth ∈ Value.truths other, truth = (op == .or)

instance (op : Operator) (other : Option Value) : Decidable (op.Decides other) :=
  inferInstanceAs (Decidable (∀ truth ∈ Value.truths other, truth = (op == .or)))

theorem apply_true_iff (h : op.family = .logic) (other : Option Value) (now : Timestamp) :
    op.apply (some (.scalar (.bool true))) other now = op.apply none other now ↔
      op.Decides other := by
  cases op with
  | and =>
      refine (decideBoth_eq_iff _ rfl rfl other now).trans (forall₂_congr fun truth _ => ?_)
      cases truth <;> decide
  | or =>
      refine (decideBoth_eq_iff _ rfl rfl other now).trans (forall₂_congr fun truth _ => ?_)
      cases truth <;> decide
  | _ => cases h

theorem apply_comm_of_logic (h : op.family = .logic) (left right : Option Value)
    (now : Timestamp) : op.apply left right now = op.apply right left now := by
  cases op with
  | and => exact mirrors_and.apply_eq left right now
  | or => exact mirrors_or.apply_eq left right now
  | _ => cases h

theorem apply_handle_eq_none_iff (op : Operator) (handle : Entity) (other : Option Value)
    (now : Timestamp) :
    op.apply (some (.entity handle)) other now = op.apply none other now ↔
      (op.family = .logic → op.Decides other) := by
  rw [apply_handle_left, insteadOfHandle]
  by_cases h : op.family = .logic
  · simp only [h, if_true, apply_true_iff h, true_implies]
  · simp [h]

theorem apply_eq_none_handle_iff (op : Operator) (handle : Entity) (other : Option Value)
    (now : Timestamp) :
    op.apply other (some (.entity handle)) now = op.apply other none now ↔
      (op.family = .logic → op.Decides other) := by
  rw [apply_handle_right, insteadOfHandle]
  by_cases h : op.family = .logic
  · simp only [h, if_true, apply_comm_of_logic h other, apply_true_iff h, true_implies]
  · simp [h]

end Operator

/-- A chain makes of a handle in front what its first operator makes of it. -/
theorem Expr.evalLinks_handle (handle : Entity) (op : Operator) (e : Expr)
    (rest : List (Operator × Expr)) :
    Expr.evalLinks (some (.entity handle)) ((op, e) :: rest) =
      Expr.evalLinks op.insteadOfHandle ((op, e) :: rest) := by
  simp only [Expr.evalLinks, Operator.apply_handle_left]

namespace Operator

/-- As an operand a handle is as good as a missing one in arithmetic and comparisons, on either
side and whatever the other operand is. In logic it is as good as a true one instead, so that it
differs from a missing one unless the other operand decides. A chain takes a handle in front for the
same. -/
theorem handle_as_operand (op : Operator) (handle : Entity) :
    (∀ (other : Option Value) (now : Timestamp),
      (op.apply (some (.entity handle)) other now = op.apply none other now ↔
        (op.family = .logic → op.Decides other)) ∧
      (op.apply other (some (.entity handle)) now = op.apply other none now ↔
        (op.family = .logic → op.Decides other))) ∧
    (op.family = .logic → ∀ (other : Option Value) (now : Timestamp),
      op.apply (some (.entity handle)) other now =
        op.apply (some (.scalar (.bool true))) other now ∧
      op.apply other (some (.entity handle)) now =
        op.apply other (some (.scalar (.bool true))) now) ∧
    ∀ (e : Expr) (rest : List (Operator × Expr)),
      Expr.evalLinks (some (.entity handle)) ((op, e) :: rest) =
        Expr.evalLinks (if op.family = .logic then some (.scalar (.bool true)) else none)
          ((op, e) :: rest) := by
  refine ⟨?_, ?_, fun e rest => Expr.evalLinks_handle handle op e rest⟩
  · intro other now
    exact ⟨op.apply_handle_eq_none_iff handle other now,
      op.apply_eq_none_handle_iff handle other now⟩
  · intro h other now
    rw [apply_handle_left, apply_handle_right, insteadOfHandle, if_pos h]
    exact ⟨rfl, rfl⟩

/-- Beside something false a handle makes a disjunction true; what is true already makes it so
without. -/
theorem handle_as_operand_or :
    or.family = .logic ∧
    or.apply (some (.entity ⟨.protocol, "x"⟩)) (some (.scalar (.bool false))) 5 =
      or.apply (some (.scalar (.bool true))) (some (.scalar (.bool false))) 5 ∧
    or.Decides (some (.string "yes")) ∧
    or.apply (some (.entity ⟨.protocol, "x"⟩)) (some (.string "yes")) 5 =
      or.apply none (some (.string "yes")) 5 := by
  obtain ⟨hmissing, htrue, -⟩ := handle_as_operand or ⟨.protocol, "x"⟩
  have hdecides : or.Decides (some (.string "yes")) := by decide
  exact ⟨rfl, (htrue rfl _ 5).1, hdecides, (hmissing _ 5).1.mpr fun _ => hdecides⟩

/-- A handle is not always as good as a missing operand. -/
theorem not_handle_as_missing :
    ¬ ∀ (op : Operator) (handle : Entity) (other : Option Value) (now : Timestamp),
      op.apply (some (.entity handle)) other now = op.apply none other now ∧
      op.apply other (some (.entity handle)) now = op.apply other none now := by
  intro h
  have htruths := congrArg Series.truths
    (h .or ⟨.protocol, "x"⟩ (some (.scalar (.bool false))) 5).1
  exact absurd htruths (by decide)

end Operator

end MetricScript
