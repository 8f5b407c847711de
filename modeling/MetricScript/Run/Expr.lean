import MetricScript.Builtin.Apply
import MetricScript.Run.Property
import MetricScript.Script.Basic
import MetricScript.Value.Pointwise

/-!
Evaluation of expressions while nothing is ever suspended: either the source answers every call at
once or arguments are evaluated one after the other. With a source that takes its time an expression
is a job, of which the evaluation here is the special case. A failure of an operand, an argument or
an item of an array is recorded and leaves the operand missing; a failure of the expression itself
is left to whoever uses it.
-/

namespace MetricScript

/-- The value that a literal denotes. -/
def Literal.value : Literal → Value
  | .number x => .number x
  | .string s => .string s
  | .bool b => .scalar (.bool b)
  | .null => .null

namespace Run

def variableValue (name : String) : Run Value := do
  match (← state).bindings.find? name with
  | some v => pure v
  | none => fail (.undefinedVariable name)

/-- The value of a name in an expression: `null` is no variable. -/
def nameValue (name : String) : Run Value :=
  if name = "null" then pure .null else variableValue name

/-- Refuses a handle where a value is needed; anything else passes, missing or not. The name is that
of the variable that the handle came from. -/
def refuseHandle (name : Option String) : Option Value → Run (Option Value)
  | some (.entity entity) => do
    record (.handleAsValue name entity)
    pure none
  | value => pure value

/-- The value of a call of a function with its arguments. The constructors of handles come before
the other functions, and case does not matter. -/
def callFunction (function : String) (arguments : List (Option Value)) : Run Value := do
  match (Named.ofFoldedName? function : Option EntityKind) with
  | some kind => ofExcept (kind.construct arguments)
  | none =>
    match (Named.ofFoldedName? function : Option Builtin) with
    | some b =>
      let setting ← setting
      ofExcept (b.apply arguments setting.config.defaultWindow setting.now)
    | none => fail (.unknownFunction function)

/-- Settles results from left to right. -/
def settleResults : List (Except Failure Value) → Run (List (Option Value))
  | [] => pure []
  | result :: rest => do
    let value ← settleResult result
    let values ← settleResults rest
    pure (value :: values)

end Run

open Run

mutual

def Expr.eval : Expr → Run Value
  | .literal l => pure l.value
  | .variable name => nameValue name
  | .array items => do
    let values ← Expr.evalItems items
    pure (.list values)
  | .call function arguments => do
    let results ← Expr.attemptAll arguments
    let values ← settleResults results
    callFunction function values
  | .member base names => do
    let value ← base.eval
    properties value names
  | .chain first rest =>
    if rest.isEmpty then first.eval
    else do
      let left ← settle first.eval
      match ← Expr.evalLinks left rest with
      | some value => pure value
      | none => fail .unsupportedExpression
  | .not operand => do
    let value ← settle operand.eval
    let moment ← now
    pure (.series (Value.negate value moment))
  | .unsupported => fail .unsupportedExpression
termination_by structural e => e

/-- Evaluates the items of an array, each settled before the next one begins. -/
def Expr.evalItems : List Expr → Run (List (Option Value))
  | [] => pure []
  | e :: rest => do
    let value ← settle e.eval
    let values ← Expr.evalItems rest
    pure (value :: values)
termination_by structural items => items

/-- Evaluates arguments from left to right without settling them. Side by side or one after the
other is the same while nothing is suspended. -/
def Expr.attemptAll : List Expr → Run (List (Except Failure Value))
  | [] => pure []
  | e :: rest => do
    let result ← attempt e.eval
    let results ← Expr.attemptAll rest
    pure (result :: results)
termination_by structural arguments => arguments

/-- Combines the operands of a chain with what is left of them, one after the other. -/
def Expr.evalLinks (left : Option Value) (rest : List (Operator × Expr)) : Run (Option Value) :=
  match rest with
  | [] => pure left
  | (op, e) :: rest => do
    let value ← settle e.eval
    let right ← refuseHandle e.variable? value
    let moment ← now
    Expr.evalLinks (some (.series (op.apply left right moment))) rest
termination_by structural rest

end

/-- Evaluates arguments: all of them first, then their failures are recorded in order. A crash
during one argument discards the failures of those before it. -/
def Expr.evalArguments (arguments : List Expr) : Run (List (Option Value)) := do
  let results ← Expr.attemptAll arguments
  settleResults results

end MetricScript
