import MetricScript.Proofs.Trace.Step
import MetricScript.Interpreter

/-! # The steps that runs consist of

Every expression, statement and script has a trace, the row of steps that it takes from a given
state. The trace names what is evaluated, in order; that replaying it gives exactly the state that
the run leaves is proved for every one of them. -/

namespace MetricScript

/-- The steps that a computation takes, by where it starts. -/
def Trace := Setting → State → List Step

namespace Trace

/-- The same steps wherever it starts. -/
def row (steps : List Step) : Trace := fun _ _ => steps

/-- The steps of a computation, then those of what follows on its value. -/
def andThen {α : Type} (t : Trace) (x : Run α) (next : α → Trace) : Trace := fun setting s =>
  t setting s ++
    match x setting s with
    | (.ok a, s') => next a setting s'
    | (.error _, _) => []

/-- The steps of a computation whose failure is then recorded. -/
def settling {α : Type} (t : Trace) (x : Run α) : Trace := fun setting s =>
  t setting s ++
    match (x setting s).1 with
    | .error (.failed f) => [.record f]
    | _ => []

/-- The steps of a computation whose failure or crash is then recorded. -/
def containing (t : Trace) (x : Run Unit) : Trace := fun setting s =>
  t setting s ++
    match (x setting s).1 with
    | .ok () => []
    | .error (.failed f) => [.record f]
    | .error (.crashed message) => [.record (.crash (message.getD Run.namelessCrash))]

end Trace

open Run Trace

/-! ## Expressions -/

/-- Properties taken one after the other. -/
def propertiesTrace (base : Value) : List String → Trace
  | [] => row []
  | name :: rest =>
    (row [.access base name]).andThen (property base name) fun value => propertiesTrace value rest

/-- Recording the failures among results. -/
def settledSteps (results : List (Except Failure Value)) : List Step :=
  (results.filterMap failureOf?).map .record

mutual

/-- The steps of an expression. -/
def Expr.trace : Expr → Trace
  | .literal _ => row []
  | .variable name => row [.read name]
  | .array items => Expr.itemsTrace items
  | .call function arguments =>
    (Expr.attemptsTrace arguments).andThen (Expr.attemptAll arguments) fun results =>
      (row (settledSteps results)).andThen (settleResults results) fun values =>
        row [.call function values]
  | .member base names => base.trace.andThen base.eval fun value => propertiesTrace value names
  | .chain first rest =>
    if rest.isEmpty then first.trace
    else (first.trace.settling first.eval).andThen (settle first.eval) fun _ =>
      Expr.linksTrace rest
  | .not operand => operand.trace.settling operand.eval
  | .unsupported => row [.unsupportedPart]
termination_by structural e => e

/-- The steps of the items of an array. -/
def Expr.itemsTrace : List Expr → Trace
  | [] => row []
  | e :: rest =>
    (e.trace.settling e.eval).andThen (settle e.eval) fun _ => Expr.itemsTrace rest
termination_by structural items => items

/-- The steps of arguments, their failures not yet recorded. -/
def Expr.attemptsTrace : List Expr → Trace
  | [] => row []
  | e :: rest => e.trace.andThen (attempt e.eval) fun _ => Expr.attemptsTrace rest
termination_by structural arguments => arguments

/-- The steps of the operands of a chain after the first one. -/
def Expr.linksTrace : List (Operator × Expr) → Trace
  | [] => row []
  | (_, e) :: rest =>
    (e.trace.settling e.eval).andThen (settle e.eval) fun value =>
      (row [.check e.variable? value]).andThen (refuseHandle e.variable? value) fun _ =>
        Expr.linksTrace rest
termination_by structural rest => rest

end

/-- The steps of arguments, their failures recorded in the end. -/
def Expr.argumentsTrace (arguments : List Expr) : Trace :=
  (Expr.attemptsTrace arguments).andThen (Expr.attemptAll arguments) fun results =>
    row (settledSteps results)

/-! ## Statements -/

/-- The steps of styling a plot: the checks of its chart type and of its color. -/
def styleSteps (values : List (Option Value)) : List Step :=
  let text (i : Nat) := (Builtin.argument? values i).bind Value.string?
  ((text 2).map Step.chartType).toList ++ ((text 3).map Step.color).toList

/-- The steps of plotting values. -/
def plotSteps (values : List (Option Value)) : List Step :=
  match Builtin.argument? values 0 with
  | none => []
  | some series =>
    if series.isEmptyCollection then [.blankPlot]
    else styleSteps values ++ [.draw (plotOf values series)]

/-- The steps of a statement. -/
def Statement.trace : Statement → Trace
  | .assignment name none => row [.unbind name]
  | .assignment name (some e) =>
    e.trace.andThen (attempt e.eval) fun result =>
      match result with
      | .ok value => row [.bind name value]
      | .error _ => row [.unbind name]
  | .plot arguments =>
    if arguments.isEmpty then row [.barePlot]
    else
      (Expr.argumentsTrace arguments).andThen (Expr.evalArguments arguments) fun values =>
        (row (List.zipWith (fun e => .check e.variable?) arguments values)).andThen
          (refuseHandles arguments values) fun values => row (plotSteps values)
  | .highlight arguments =>
    (Expr.argumentsTrace arguments).andThen (Expr.evalArguments arguments) fun values =>
      row [.mark ⟨values⟩]
  | .expression _ => row []
  | .unsupported rule => row [.unsupportedStatement rule]

/-- The steps of statements, each with the recording of its own failure or crash. -/
def statementsTrace : List Statement → Trace
  | [] => row []
  | statement :: rest =>
    (statement.trace.containing statement.exec).andThen (contain statement.exec) fun _ =>
      statementsTrace rest

/-- The steps of a script. -/
def Script.trace (script : Script) : Trace :=
  statementsTrace script.statements

/-! ## Traces replay -/

/-- Replaying the steps of a computation gives the state in which it ends. -/
def Traces {α : Type} (t : Trace) (x : Run α) : Prop :=
  ∀ setting s, replay setting s (t setting s) = (x setting s).2

namespace Traces

variable {α β : Type} {t : Trace} {x : Run α}

theorem pure (a : α) : Traces (row []) (pure a : Run α) := fun _ _ => rfl

theorem andThen {next : α → Trace} {f : α → Run β} (hx : Traces t x)
    (hf : ∀ a, Traces (next a) (f a)) : Traces (t.andThen x next) (x >>= f) := by
  intro setting s
  rw [Trace.andThen, replay_append, hx setting s]
  rcases apply_cases x setting s with ⟨a, s', h⟩ | ⟨stop, s', h⟩
  · rw [bind_apply_ok h, h]
    exact hf a setting s'
  · rw [bind_apply_error h, h]
    rfl

/-- What follows without touching the state takes no steps. -/
theorem bind_still {f : α → Run β} (hx : Traces t x) (hf : ∀ a setting s, (f a setting s).2 = s) :
    Traces t (x >>= f) := by
  intro setting s
  rw [hx setting s]
  rcases apply_cases x setting s with ⟨a, s', h⟩ | ⟨stop, s', h⟩
  · rw [bind_apply_ok h, h, hf]
  · rw [bind_apply_error h, h]

theorem attempt (hx : Traces t x) : Traces t (attempt x) := by
  intro setting s
  rw [hx setting s, attempt_state]

theorem settling (hx : Traces t x) : Traces (t.settling x) (settle x) := by
  intro setting s
  rw [Trace.settling, replay_append, hx setting s]
  rcases h : x setting s with ⟨(f | message) | a, s'⟩
  · rw [settle_of_failed h]
    rfl
  · rw [settle_of_crashed h]
    rfl
  · rw [settle_of_ok h]
    rfl

theorem containing {x : Run Unit} (hx : Traces t x) : Traces (t.containing x) (contain x) := by
  intro setting s
  rw [Trace.containing, replay_append, hx setting s]
  rcases h : x setting s with ⟨(f | message) | a, s'⟩ <;> simp only [contain, h] <;> rfl

/-! ### Elementary computations -/

theorem nameValue (name : String) : Traces (row [.read name]) (nameValue name) := by
  intro setting s
  rw [nameValue_apply]
  rfl

theorem property (base : Value) (name : String) :
    Traces (row [.access base name]) (property base name) := fun _ _ => rfl

theorem callFunction (function : String) (arguments : List (Option Value)) :
    Traces (row [.call function arguments]) (callFunction function arguments) := by
  intro setting s
  rw [callFunction_apply]
  rfl

theorem refuseHandle (name : Option String) (value : Option Value) :
    Traces (row [.check name value]) (refuseHandle name value) := by
  intro setting s
  rw [refuseHandle_apply]
  rfl

theorem properties (base : Value) (names : List String) :
    Traces (propertiesTrace base names) (properties base names) := by
  induction names generalizing base with
  | nil => exact pure base
  | cons name rest ih => exact (property base name).andThen ih

theorem settleResults (results : List (Except Failure Value)) :
    Traces (row (settledSteps results)) (settleResults results) := by
  intro setting s
  rw [settleResults_apply]
  exact replay_record _

theorem refuseHandles (arguments : List Expr) (values : List (Option Value)) :
    Traces (row (List.zipWith (fun e => .check e.variable?) arguments values))
      (refuseHandles arguments values) := by
  intro setting s
  rw [refuseHandles_apply]
  change replay setting s (List.zipWith (fun e => Step.check e.variable?) arguments values) = _
  induction arguments generalizing values s with
  | nil => simp
  | cons e arguments ih =>
      cases values with
      | nil => simp
      | cons value values =>
          rw [List.zipWith_cons_cons, replay_cons, ih]
          cases h : handleFailure? e.variable? value <;>
            simp [Step.apply, Step.failure?, h]

theorem styling (values : List (Option Value)) (setting : Setting) (s : State) :
    replay setting s (styleSteps values) = s.recording (styleFailures values) := by
  simp only [styleSteps, styleFailures, replay_append]
  cases (Builtin.argument? values 2).bind Value.string? <;>
    cases (Builtin.argument? values 3).bind Value.string? <;> simp [Step.apply, Step.failure?]

theorem plotValues (values : List (Option Value)) :
    Traces (row (plotSteps values)) (plotValues values) := by
  intro setting s
  change replay setting s (plotSteps values) = _
  unfold plotSteps
  cases h : Builtin.argument? values 0 with
  | none =>
      rw [plotValues_of_missing h]
      rfl
  | some series =>
      cases he : series.isEmptyCollection with
      | true =>
          rw [plotValues_of_empty h he]
          simp only [he, if_true]
          rfl
      | false =>
          rw [plotValues_of_drawn h he]
          simp only [he, Bool.false_eq_true, if_false]
          rw [replay_append, styling]
          rfl

end Traces

/-! ### Expressions -/

/-- Induction on expressions, with the hypothesis for every item, argument and operand. -/
@[elab_as_elim]
theorem Expr.induct {motive : Expr → Prop}
    (literal : ∀ l, motive (.literal l))
    (name : ∀ name, motive (.variable name))
    (array : ∀ items, (∀ e ∈ items, motive e) → motive (.array items))
    (call : ∀ function arguments, (∀ e ∈ arguments, motive e) → motive (.call function arguments))
    (member : ∀ base names, motive base → motive (.member base names))
    (chain : ∀ first rest, motive first → (∀ link ∈ rest, motive link.2) →
      motive (.chain first rest))
    (not : ∀ operand, motive operand → motive (.not operand))
    (unsupported : motive .unsupported) (e : Expr) : motive e :=
  @Expr.rec motive (fun items => ∀ e ∈ items, motive e) (fun rest => ∀ link ∈ rest, motive link.2)
    (fun link => motive link.2) literal name array call (fun base names => member base names)
    chain not unsupported
    (fun _ h => absurd h List.not_mem_nil)
    (fun _ _ hhead htail => List.forall_mem_cons.mpr ⟨hhead, htail⟩)
    (fun _ h => absurd h List.not_mem_nil)
    (fun _ _ hhead htail => List.forall_mem_cons.mpr ⟨hhead, htail⟩)
    (fun _ _ h => h) e

theorem Expr.traces_evalItems {items : List Expr} (h : ∀ e ∈ items, Traces e.trace e.eval) :
    Traces (Expr.itemsTrace items) (Expr.evalItems items) := by
  induction items with
  | nil => exact Traces.pure []
  | cons e rest ih =>
      obtain ⟨he, hrest⟩ := List.forall_mem_cons.mp h
      exact he.settling.andThen fun value => (ih hrest).bind_still fun _ _ _ => rfl

theorem Expr.traces_attemptAll {arguments : List Expr}
    (h : ∀ e ∈ arguments, Traces e.trace e.eval) :
    Traces (Expr.attemptsTrace arguments) (Expr.attemptAll arguments) := by
  induction arguments with
  | nil => exact Traces.pure []
  | cons e rest ih =>
      obtain ⟨he, hrest⟩ := List.forall_mem_cons.mp h
      exact he.attempt.andThen fun result => (ih hrest).bind_still fun _ _ _ => rfl

theorem Expr.traces_evalLinks {rest : List (Operator × Expr)}
    (h : ∀ link ∈ rest, Traces link.2.trace link.2.eval) (left : Option Value) :
    Traces (Expr.linksTrace rest) (Expr.evalLinks left rest) := by
  induction rest generalizing left with
  | nil => exact Traces.pure left
  | cons link rest ih =>
      obtain ⟨op, e⟩ := link
      obtain ⟨he, hrest⟩ := List.forall_mem_cons.mp h
      refine he.settling.andThen fun value => (Traces.refuseHandle _ value).andThen fun right => ?_
      intro setting s
      exact ih hrest _ setting s

/-- The trace of an expression gives the state that its evaluation leaves. -/
theorem Expr.traces_eval (e : Expr) : Traces e.trace e.eval := by
  induction e using Expr.induct with
  | literal l => exact Traces.pure l.value
  | name name => exact Traces.nameValue name
  | array items ih => exact (Expr.traces_evalItems ih).bind_still fun _ _ _ => rfl
  | call function arguments ih =>
      exact (Expr.traces_attemptAll ih).andThen fun results =>
        (Traces.settleResults results).andThen fun values => Traces.callFunction function values
  | member base names ih => exact ih.andThen fun value => Traces.properties value names
  | chain first rest hfirst hrest =>
      by_cases hempty : rest.isEmpty = true
      · simpa only [Expr.trace, Expr.eval, hempty, if_true] using hfirst
      · simp only [Expr.trace, Expr.eval, hempty]
        refine hfirst.settling.andThen fun left => ?_
        refine (Expr.traces_evalLinks hrest left).bind_still fun value setting s => ?_
        cases value <;> rfl
  | not operand ih => exact ih.settling.bind_still fun _ _ _ => rfl
  | unsupported => exact fun _ _ => rfl

/-! ### Statements and scripts -/

theorem Expr.traces_evalArguments (arguments : List Expr) :
    Traces (Expr.argumentsTrace arguments) (Expr.evalArguments arguments) :=
  (Expr.traces_attemptAll fun e _ => e.traces_eval).andThen Traces.settleResults

/-- The trace of a statement gives the state that its execution leaves. -/
theorem Statement.traces_exec (statement : Statement) : Traces statement.trace statement.exec := by
  cases statement with
  | assignment name value =>
      cases value with
      | none => exact fun _ _ => rfl
      | some e =>
          refine e.traces_eval.attempt.andThen fun result setting s => ?_
          cases result <;> rfl
  | plot arguments =>
      by_cases hempty : arguments.isEmpty = true
      · intro setting s
        simp only [Statement.trace, Statement.exec, plotArguments, hempty, if_true]
        rfl
      · simp only [Statement.trace, Statement.exec, plotArguments, hempty]
        exact (Expr.traces_evalArguments arguments).andThen fun values =>
          (Traces.refuseHandles arguments values).andThen Traces.plotValues
  | highlight arguments =>
      exact (Expr.traces_evalArguments arguments).andThen fun values setting s => rfl
  | expression e => exact fun _ _ => rfl
  | unsupported rule => exact fun _ _ => rfl

theorem traces_execAll (statements : List Statement) :
    Traces (statementsTrace statements) (execAll statements) := by
  induction statements with
  | nil => exact Traces.pure ()
  | cons statement rest ih => exact statement.traces_exec.containing.andThen fun _ => ih

/-- The trace of a script gives the state that its execution leaves. -/
theorem Script.traces_exec (script : Script) : Traces script.trace script.exec :=
  traces_execAll script.statements

end MetricScript
