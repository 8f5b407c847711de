import MetricScript.Proofs.Run.Outcome

/-! # Chains group from the left

A chain treats its first operand unlike the others: it may be a handle, and without a link its
failure is that of the chain. A chain with a link has no failure of its own, so it comes to the
same whether its first operands stand by themselves or are grouped into a chain that takes their
place. -/

namespace MetricScript

open Run

namespace Run

variable {α β : Type}

/-- The computation has a value unless the source crashes. -/
def NeverFails (x : Run α) : Prop :=
  ∀ setting s f s', x setting s ≠ (.error (.failed f), s')

namespace NeverFails

variable {x : Run α}

theorem pure (a : α) : NeverFails (pure a : Run α) := fun _ _ _ _ h => by cases h

theorem bind {next : α → Run β} (hx : NeverFails x) (hnext : ∀ a, NeverFails (next a)) :
    NeverFails (x >>= next) := by
  intro setting s f s' h
  rcases bind_eq_error_iff.mp h with h | ⟨a, t, -, h⟩
  · exact hx setting s f s' h
  · exact hnext a setting t f s' h

theorem attempt (x : Run α) : NeverFails (attempt x) := by
  intro setting s f s' h
  rcases hr : x setting s with ⟨(g | message) | a, t⟩
  · rw [attempt_of_failed hr] at h
    cases h
  · rw [attempt_of_crashed hr] at h
    cases h
  · rw [attempt_of_ok hr] at h
    cases h

theorem settle (x : Run α) : NeverFails (settle x) := by
  refine (attempt x).bind fun r setting s f s' h => ?_
  rw [settleResult_apply] at h
  cases h

theorem now : NeverFails now := fun _ _ _ _ h => by cases h

theorem refuseHandle (name : Option String) (value : Option Value) :
    NeverFails (refuseHandle name value) := by
  intro setting s f s' h
  rw [refuseHandle_apply] at h
  cases h

theorem settleResults (results : List (Except Failure Value)) :
    NeverFails (settleResults results) := by
  intro setting s f s' h
  rw [settleResults_apply] at h
  cases h

end NeverFails

end Run

namespace Expr

variable {left value : Option Value} {setting : Setting} {s s' : State}

/-! ## Links -/

theorem neverFails_evalLinks (left : Option Value) (rest : List (Operator × Expr)) :
    NeverFails (evalLinks left rest) := by
  induction rest generalizing left with
  | nil => exact .pure left
  | cons link rest ih =>
      obtain ⟨op, e⟩ := link
      exact (NeverFails.settle e.eval).bind fun value =>
        (NeverFails.refuseHandle e.variable? value).bind fun right =>
          NeverFails.now.bind fun moment => ih _

/-- Whatever its operands are, the value of a chain with a link is a series. -/
theorem exists_series_of_evalLinks {rest : List (Operator × Expr)} (h : rest ≠ [])
    (heval : evalLinks left rest setting s = (.ok value, s')) : ∃ t, value = some (.series t) := by
  induction rest generalizing left s with
  | nil => exact absurd rfl h
  | cons link rest ih =>
      obtain ⟨op, e⟩ := link
      rw [evalLinks] at heval
      obtain ⟨operand, s₁, -, heval⟩ := bind_eq_ok_iff.mp heval
      obtain ⟨right, s₂, -, heval⟩ := bind_eq_ok_iff.mp heval
      obtain ⟨moment, s₃, -, heval⟩ := bind_eq_ok_iff.mp heval
      by_cases hrest : rest = []
      · subst hrest
        cases heval
        exact ⟨_, rfl⟩
      · exact ih hrest heval

/-- Links are taken one after the other, so they may be taken in two turns. -/
theorem evalLinks_append (left : Option Value) (front rest : List (Operator × Expr)) :
    evalLinks left (front ++ rest) =
      evalLinks left front >>= fun middle => evalLinks middle rest := by
  induction front generalizing left with
  | nil => rw [List.nil_append, evalLinks, pure_bind]
  | cons link front ih =>
      obtain ⟨op, e⟩ := link
      simp only [List.cons_append, evalLinks, ih, bind_assoc]

/-! ## Chains -/

/-- The value of a chain with a link; there always is one. -/
def chainValue : Option Value → Run Value
  | some value => pure value
  | none => fail .unsupportedExpression

theorem eval_chain_nil (first : Expr) : (chain first []).eval = first.eval := by
  simp only [eval, List.isEmpty_nil, if_true]

theorem eval_chain_of_ne_nil (first : Expr) {rest : List (Operator × Expr)} (h : rest ≠ []) :
    (chain first rest).eval =
      settle first.eval >>= fun left => evalLinks left rest >>= chainValue := by
  have hempty : ¬ rest.isEmpty = true := by simpa using h
  simp only [eval, hempty]
  rfl

/-- A chain with a link is settled without recording a failure of its own. -/
theorem settle_eval_chain (first : Expr) {rest : List (Operator × Expr)} (h : rest ≠ []) :
    settle (chain first rest).eval =
      settle first.eval >>= fun left => evalLinks left rest := by
  rw [eval_chain_of_ne_nil first h, ← bind_assoc]
  funext setting s
  have hnever : NeverFails (settle first.eval >>= fun left => evalLinks left rest) :=
    (NeverFails.settle first.eval).bind fun left => neverFails_evalLinks left rest
  rcases hlinks : (settle first.eval >>= fun left => evalLinks left rest) setting s with
    ⟨(f | message) | value, t⟩
  · exact absurd hlinks (hnever setting s f t)
  · exact settle_of_crashed (bind_apply_error hlinks)
  · obtain ⟨left, s₁, -, hvalue⟩ := bind_eq_ok_iff.mp hlinks
    obtain ⟨v, rfl⟩ := exists_series_of_evalLinks h hvalue
    exact settle_of_ok (bind_apply_ok hlinks)

/-- Grouping the operands with which a chain begins changes nothing, whatever the operands are and
wherever the evaluation starts: it ends alike, and it leaves the same failures, calls and series. -/
theorem eval_chain_append (first : Expr) (front rest : List (Operator × Expr)) :
    (chain first (front ++ rest)).eval = (chain (chain first front) rest).eval := by
  by_cases hrest : rest = []
  · rw [hrest, List.append_nil, eval_chain_nil]
  · have hboth : front ++ rest ≠ [] := by simp [hrest]
    by_cases hfront : front = []
    · rw [hfront, List.nil_append, eval_chain_of_ne_nil _ hrest, eval_chain_of_ne_nil _ hrest,
        eval_chain_nil]
    · rw [eval_chain_of_ne_nil first hboth, eval_chain_of_ne_nil _ hrest,
        settle_eval_chain first hfront, bind_assoc]
      simp only [evalLinks_append, bind_assoc]

end Expr

end MetricScript
