import MetricScript.Proofs.Run.Outcome

/-! # Elementary steps of a run

A run is a list of elementary steps. A step may change the state, and it may raise a failure. Most
steps only raise theirs, so that it is recorded later or by another step; the steps that pass over a
handle, a chart type or a color record theirs at once. -/

namespace MetricScript

/-- An elementary step, with the values that it works on. -/
inductive Step where
  /-- A name is looked up. -/
  | read (name : String)
  /-- A property of a value is taken. -/
  | access (base : Value) (property : String)
  /-- A function is called with its arguments, failed ones missing. -/
  | call (function : String) (arguments : List (Option Value))
  /-- A part of an expression that has no meaning comes up. -/
  | unsupportedPart
  /-- An operand or argument, from a variable if one is named, must not be a handle. -/
  | check (name : Option String) (value : Option Value)
  /-- A plot has no arguments. -/
  | barePlot
  /-- A plot has an empty collection to draw. -/
  | blankPlot
  /-- A text asks for a chart type. -/
  | chartType (text : String)
  /-- A text asks for a color. -/
  | color (text : String)
  /-- A statement of a kind that the language does not have comes up. -/
  | unsupportedStatement (rule : String)
  /-- A failure that was raised before, or a crash, is recorded. -/
  | record (f : Failure)
  | bind (name : String) (value : Value)
  | unbind (name : String)
  | draw (plot : Plot)
  | mark (highlight : Highlight)

namespace Step

/-- The failure raised by taking a property: there is no such property, or it is not kept and the
source has an error to answer. -/
def accessFailure? (setting : Setting) (s : State) (base : Value) (name : String) :
    Option Failure :=
  match base with
  | .entity entity =>
    match entity.kind.endpoint? name with
    | none => some (.noMetric name entity)
    | some endpoint =>
      match s.kept? setting (cacheKey entity.id name),
        (s.fetch setting entity name endpoint).answer with
      | none, .error e => some (.fetch entity name e)
      | _, _ => none
  | base => failureOf? (Run.plainProperty base name)

/-- The failure that a step raises in a state, if it raises one. -/
def failure? (setting : Setting) (s : State) : Step → Option Failure
  | read name =>
    if name = "null" ∨ (s.bindings.find? name).isSome then none
    else some (.undefinedVariable name)
  | access base name => accessFailure? setting s base name
  | call function arguments => failureOf? (Run.callResult setting function arguments)
  | unsupportedPart => some .unsupportedExpression
  | check name value => Run.handleFailure? name value
  | barePlot => some .nothingToPlot
  | blankPlot => some .emptyPlot
  | chartType text => Run.chartTypeFailure? text
  | color text => Run.colorFailure? text
  | unsupportedStatement rule => some (.unsupportedStatement rule)
  | _ => none

/-- The state after a step. -/
def apply (setting : Setting) (s : State) (step : Step) : State :=
  match step with
  | access base name => (Run.property base name setting s).2
  | check _ _ => s.recording (step.failure? setting s).toList
  | chartType _ => s.recording (step.failure? setting s).toList
  | color _ => s.recording (step.failure? setting s).toList
  | record f => s.recording [f]
  | bind name value => { s with bindings := s.bindings.insert name value }
  | unbind name => { s with bindings := s.bindings.erase name }
  | draw plot => { s with plots := s.plots ++ [plot] }
  | mark highlight => { s with highlights := s.highlights ++ [highlight] }
  | _ => s

/-- Steps that belong to the evaluation of an expression or to the checks of a statement: they
touch neither variables nor plots nor highlights. -/
def isQuiet : Step → Bool
  | bind _ _ => false
  | unbind _ => false
  | draw _ => false
  | mark _ => false
  | _ => true

end Step

/-! ## Rows of steps -/

/-- The state after a row of steps. -/
def replay (setting : Setting) (s : State) (steps : List Step) : State :=
  steps.foldl (Step.apply setting) s

/-- The failures raised along a row of steps, in order. -/
def raised (setting : Setting) (s : State) : List Step → List Failure
  | [] => []
  | step :: rest => (step.failure? setting s).toList ++ raised setting (step.apply setting s) rest

section Rows

variable {setting : Setting} {s : State}

@[simp] theorem replay_nil : replay setting s [] = s := rfl

@[simp] theorem replay_cons (step : Step) (rest : List Step) :
    replay setting s (step :: rest) = replay setting (step.apply setting s) rest := rfl

theorem replay_append (front rest : List Step) :
    replay setting s (front ++ rest) = replay setting (replay setting s front) rest :=
  List.foldl_append

theorem replay_record (failures : List Failure) :
    replay setting s (failures.map .record) = s.recording failures := by
  induction failures generalizing s with
  | nil => simp
  | cons f rest ih => simp [Step.apply, ih]

@[simp] theorem raised_nil : raised setting s [] = [] := rfl

theorem raised_singleton (step : Step) :
    raised setting s [step] = (step.failure? setting s).toList := by
  simp [raised]

theorem raised_append (front rest : List Step) :
    raised setting s (front ++ rest) =
      raised setting s front ++ raised setting (replay setting s front) rest := by
  induction front generalizing s with
  | nil => rfl
  | cons step front ih =>
      simp only [List.cons_append, raised, replay_cons, List.append_assoc]
      rw [ih]

end Rows

/-- A condition that holds of every state along a row of steps, the first and the last included. -/
def Throughout (I : State → Prop) (setting : Setting) (s : State) : List Step → Prop
  | [] => I s
  | step :: rest => I s ∧ Throughout I setting (step.apply setting s) rest

section Throughout

variable {I : State → Prop} {setting : Setting} {s : State}

theorem throughout_append (front rest : List Step) :
    Throughout I setting s (front ++ rest) ↔
      Throughout I setting s front ∧ Throughout I setting (replay setting s front) rest := by
  induction front generalizing s with
  | nil =>
      refine ⟨fun h => ⟨?_, h⟩, And.right⟩
      cases rest with
      | nil => exact h
      | cons step rest => exact h.1
  | cons step front ih => simp only [List.cons_append, Throughout, replay_cons, ih, and_assoc]

/-- Every row of steps that begins this one leads to a state in which the condition holds. -/
theorem Throughout.of_isPrefix {steps done : List Step} (h : Throughout I setting s steps)
    (hdone : done <+: steps) : I (replay setting s done) := by
  obtain ⟨rest, rfl⟩ := hdone
  have hrest := ((throughout_append done rest).mp h).2
  cases rest with
  | nil => exact hrest
  | cons step rest => exact hrest.1

theorem Throughout.last {steps : List Step} (h : Throughout I setting s steps) :
    I (replay setting s steps) :=
  h.of_isPrefix (List.prefix_refl steps)

/-- What each of the steps preserves holds throughout. -/
theorem throughout_of_preserved {steps : List Step} (hs : I s)
    (h : ∀ step ∈ steps, ∀ t, I t → I (step.apply setting t)) : Throughout I setting s steps := by
  induction steps generalizing s with
  | nil => exact hs
  | cons step rest ih =>
      obtain ⟨hstep, hrest⟩ := List.forall_mem_cons.mp h
      exact ⟨hs, ih (hstep s hs) hrest⟩

end Throughout

/-! ## Handles -/

/-- The handle of which a step takes a metric. -/
def Step.handle? : Step → Option Entity
  | .access (.entity entity) name => (entity.kind.endpoint? name).map fun _ => entity
  | _ => none

/-- The handles of which metrics are taken along a row of steps. -/
def handles (steps : List Step) : List Entity :=
  steps.filterMap Step.handle?

@[simp] theorem handles_nil : handles [] = [] := rfl

theorem handles_append (front rest : List Step) :
    handles (front ++ rest) = handles front ++ handles rest :=
  List.filterMap_append

theorem mem_handles_access {entity : Entity} {name : String} {endpoint : Endpoint}
    (hmapped : entity.kind.endpoint? name = some endpoint) :
    entity ∈ handles [.access (.entity entity) name] := by
  simp [handles, Step.handle?, hmapped]

end MetricScript
