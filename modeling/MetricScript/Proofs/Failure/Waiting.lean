import MetricScript.Proofs.Run.Outcome

/-! # What waits to be recorded when the source crashes

The failures that the arguments of a call, a plot or a highlight end with are recorded only after
the last argument is evaluated. If the source crashes before that they are still waiting. Operands
and the items of arrays leave nothing waiting: each is settled before the next one begins. -/

namespace MetricScript

/-- The failures that wait to be recorded when a computation crashes, by where it starts. -/
def Waiting := Setting → State → List Failure

namespace Waiting

variable {α : Type} {setting : Setting} {s s' : State}

/-- Nothing waits. -/
def empty : Waiting := fun _ _ => []

/-- What waits when a computation crashes, or else when what follows on its value crashes. -/
def andThen (w : Waiting) (x : Run α) (next : α → Waiting) : Waiting := fun setting s =>
  match x setting s with
  | (.ok a, s') => next a setting s'
  | (.error _, _) => w setting s

/-- What waits when other failures have been waiting before. -/
def behind (w : Waiting) (failures : List Failure) : Waiting := fun setting s =>
  failures ++ w setting s

theorem andThen_of_ok {w : Waiting} {x : Run α} {a : α} (h : x setting s = (.ok a, s'))
    (next : α → Waiting) : w.andThen x next setting s = next a setting s' := by
  simp only [andThen, h]

theorem andThen_of_error {w : Waiting} {x : Run α} {stop : Stop}
    (h : x setting s = (.error stop, s')) (next : α → Waiting) :
    w.andThen x next setting s = w setting s := by
  simp only [andThen, h]

theorem behind_behind (w : Waiting) (first rest : List Failure) :
    (w.behind rest).behind first = w.behind (first ++ rest) := by
  funext setting s
  simp only [behind, List.append_assoc]

@[simp] theorem empty_andThen_empty (x : Run α) : (empty.andThen x fun _ => empty) = empty := by
  funext setting s
  simp only [andThen, empty]
  split <;> rfl

/-- Failures that wait from the beginning wait all the time. -/
theorem behind_andThen (w : Waiting) (failures : List Failure) (x : Run α) (next : α → Waiting) :
    ((w.behind failures).andThen x fun a => (next a).behind failures) =
      (w.andThen x next).behind failures := by
  funext setting s
  simp only [andThen, behind]
  split <;> rfl

end Waiting

open Run

/-! ## Expressions -/

mutual

/-- What waits when the evaluation of an expression crashes. -/
def Expr.waiting : Expr → Waiting
  | .array items => Expr.itemsWaiting items
  | .call _ arguments =>
    (Expr.attemptsWaiting arguments).andThen (Expr.attemptAll arguments) fun _ => .empty
  | .member base _ => base.waiting.andThen base.eval fun _ => .empty
  | .chain first rest =>
    if rest.isEmpty then first.waiting
    else first.waiting.andThen (settle first.eval) fun _ => Expr.linksWaiting rest
  | .not operand => operand.waiting
  | .literal _ => .empty
  | .variable _ => .empty
  | .unsupported => .empty
termination_by structural e => e

/-- What waits when the evaluation of the items of an array crashes. -/
def Expr.itemsWaiting : List Expr → Waiting
  | [] => .empty
  | e :: rest => e.waiting.andThen (settle e.eval) fun _ => Expr.itemsWaiting rest
termination_by structural items => items

/-- What waits when one of some arguments crashes: the failures of those before it, and what waits
within it. -/
def Expr.attemptsWaiting : List Expr → Waiting
  | [] => .empty
  | e :: rest =>
    e.waiting.andThen (attempt e.eval) fun result =>
      (Expr.attemptsWaiting rest).behind (failureOf? result).toList
termination_by structural arguments => arguments

/-- What waits when the evaluation of the operands of a chain after the first one crashes. -/
def Expr.linksWaiting : List (Operator × Expr) → Waiting
  | [] => .empty
  | (_, e) :: rest =>
    e.waiting.andThen (settle e.eval) fun value =>
      Waiting.empty.andThen (refuseHandle e.variable? value) fun _ => Expr.linksWaiting rest
termination_by structural rest => rest

end

/-- What waits when the evaluation of arguments crashes; once all of them are evaluated, nothing. -/
def Expr.argumentsWaiting (arguments : List Expr) : Waiting :=
  (Expr.attemptsWaiting arguments).andThen (Expr.attemptAll arguments) fun _ => .empty

/-- Nothing waits any more when arguments have been evaluated. -/
theorem Expr.argumentsWaiting_andThen (arguments : List Expr) :
    ((Expr.argumentsWaiting arguments).andThen (Expr.evalArguments arguments) fun _ => .empty) =
      Expr.argumentsWaiting arguments := by
  funext setting s
  rcases apply_cases (Expr.evalArguments arguments) setting s with ⟨values, t, h⟩ | ⟨stop, t, h⟩
  · obtain ⟨results, s₁, hresults, -⟩ := bind_eq_ok_iff.mp h
    rw [Waiting.andThen_of_ok h, argumentsWaiting, Waiting.andThen_of_ok hresults]
    rfl
  · exact Waiting.andThen_of_error h _

/-! ## Statements -/

/-- What waits when the execution of a statement crashes. -/
def Statement.waiting : Statement → Waiting
  | .assignment _ (some e) => e.waiting.andThen (attempt e.eval) fun _ => .empty
  | .plot arguments => Expr.argumentsWaiting arguments
  | .highlight arguments => Expr.argumentsWaiting arguments
  | _ => .empty

end MetricScript
