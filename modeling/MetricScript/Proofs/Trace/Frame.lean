import MetricScript.Proofs.Trace.Basic

/-! # What the steps of expressions leave alone

Expressions take quiet steps only, which leave variables, plots and highlights as they are. No step
at all takes a recorded failure back or changes a series that is kept. -/

namespace MetricScript

open Run Trace

/-! ## One step -/

namespace Step

/-- A quiet step leaves variables, plots and highlights as they are. -/
theorem frame_of_quiet (setting : Setting) (s : State) {step : Step} (h : step.isQuiet = true) :
    (step.apply setting s).bindings = s.bindings ∧ (step.apply setting s).plots = s.plots ∧
      (step.apply setting s).highlights = s.highlights := by
  cases step with
  | access base name =>
      rcases property_state_cases base name setting s with
        hs | ⟨entity, endpoint, -, -, -, ⟨-, hs⟩ | ⟨series, -, hs⟩⟩
      · simp [apply, hs]
      · simp [apply, hs, State.asked]
      · simp only [apply, hs, State.keeping, State.asked]
        split <;> exact ⟨rfl, rfl, rfl⟩
  | bind name value => cases h
  | unbind name => cases h
  | draw plot => cases h
  | mark highlight => cases h
  | _ => exact ⟨rfl, rfl, rfl⟩

/-- A step takes no recorded failure back. -/
theorem failures_isPrefix (step : Step) (setting : Setting) (s : State) :
    s.failures <+: (step.apply setting s).failures := by
  cases step with
  | access base name =>
      rcases property_state_cases base name setting s with
        hs | ⟨entity, endpoint, -, -, -, ⟨-, hs⟩ | ⟨series, -, hs⟩⟩
      · simp [apply, hs]
      · simp [apply, hs, State.asked]
      · simp only [apply, hs, State.keeping, State.asked]
        split <;> exact List.prefix_refl _
  | check name value => exact List.prefix_append _ _
  | chartType text => exact List.prefix_append _ _
  | color text => exact List.prefix_append _ _
  | record f => exact List.prefix_append _ _
  | _ => exact List.prefix_refl _

/-- A step changes no series that is kept. -/
theorem find?_cache (step : Step) (setting : Setting) {s : State} {key : String} {series : Series}
    (h : s.cache.find? key = some series) :
    (step.apply setting s).cache.find? key = some series := by
  cases step with
  | access base name =>
      rcases property_state_cases base name setting s with
        hs | ⟨entity, endpoint, -, -, hmissing, ⟨-, hs⟩ | ⟨fetched, -, hs⟩⟩
      · simpa only [apply, hs] using h
      · simpa only [apply, hs, State.asked] using h
      · simp only [apply, hs]
        rw [State.find?_cache_keeping, State.asked]
        split
        · -- What is put into the cache stands under a key that had nothing before.
          rename_i hnew
          rw [State.kept?, if_pos hnew.1, hnew.2, h] at hmissing
          cases hmissing
        · exact h
  | _ => exact h

end Step

theorem failures_isPrefix_replay (setting : Setting) (s : State) (steps : List Step) :
    s.failures <+: (replay setting s steps).failures := by
  induction steps generalizing s with
  | nil => exact List.prefix_refl _
  | cons step rest ih => exact (step.failures_isPrefix setting s).trans (ih _)

theorem find?_cache_replay {setting : Setting} {s : State} {key : String} {series : Series}
    (steps : List Step) (h : s.cache.find? key = some series) :
    (replay setting s steps).cache.find? key = some series := by
  induction steps generalizing s with
  | nil => exact h
  | cons step rest ih => exact ih (step.find?_cache setting h)

/-- A computation with a trace takes no recorded failure back. -/
theorem Traces.failures_isPrefix {α : Type} {t : Trace} {x : Run α} (h : Traces t x)
    {setting : Setting} {s s' : State} {r : Except Stop α} (hx : x setting s = (r, s')) :
    s.failures <+: s'.failures := by
  have hgrows := failures_isPrefix_replay setting s (t setting s)
  rw [h setting s, hx] at hgrows
  exact hgrows

/-- A computation with a trace changes no series that is kept. -/
theorem Traces.find?_cache {α : Type} {t : Trace} {x : Run α} (h : Traces t x) {setting : Setting}
    {s s' : State} {r : Except Stop α} (hx : x setting s = (r, s')) {key : String}
    {series : Series} (hkept : s.cache.find? key = some series) :
    s'.cache.find? key = some series := by
  have hend : (replay setting s (t setting s)).cache.find? key = some series :=
    find?_cache_replay _ hkept
  rw [h setting s, hx] at hend
  exact hend

/-! ## Quiet traces -/

/-- Only quiet steps, wherever it starts. -/
def Trace.Quiet (t : Trace) : Prop :=
  ∀ setting s, ∀ step ∈ t setting s, step.isQuiet = true

namespace Trace.Quiet

variable {α : Type} {t : Trace} {x : Run α}

theorem row {steps : List Step} (h : ∀ step ∈ steps, step.isQuiet = true) : Quiet (row steps) :=
  fun _ _ => h

theorem andThen {next : α → Trace} (ht : t.Quiet) (hnext : ∀ a, (next a).Quiet) :
    (t.andThen x next).Quiet := by
  intro setting s step hstep
  rcases List.mem_append.mp hstep with hstep | hstep
  · exact ht setting s step hstep
  · split at hstep
    · exact hnext _ setting _ step hstep
    · cases hstep

theorem settling (ht : t.Quiet) : (t.settling x).Quiet := by
  intro setting s step hstep
  rcases List.mem_append.mp hstep with hstep | hstep
  · exact ht setting s step hstep
  · split at hstep
    · rw [List.mem_singleton.mp hstep]
      rfl
    · cases hstep

theorem properties (base : Value) (names : List String) : (propertiesTrace base names).Quiet := by
  induction names generalizing base with
  | nil => exact row (by simp)
  | cons name rest ih => exact (row (by simp [Step.isQuiet])).andThen ih

theorem settledSteps (results : List (Except Failure Value)) :
    (Trace.row (settledSteps results)).Quiet := by
  intro setting s step hstep
  obtain ⟨f, -, rfl⟩ := List.mem_map.mp hstep
  rfl

theorem checks (arguments : List Expr) (values : List (Option Value)) :
    (Trace.row (List.zipWith (fun e => .check e.variable?) arguments values)).Quiet := by
  refine row fun step hstep => ?_
  rw [← List.map_uncurry_zip_eq_zipWith] at hstep
  obtain ⟨pair, -, rfl⟩ := List.mem_map.mp hstep
  rfl

theorem styling (values : List (Option Value)) : (Trace.row (styleSteps values)).Quiet := by
  refine row fun step hstep => ?_
  rcases List.mem_append.mp hstep with hstep | hstep
  · obtain ⟨text, -, rfl⟩ := Option.map_eq_some_iff.mp (Option.mem_toList.mp hstep)
    rfl
  · obtain ⟨text, -, rfl⟩ := Option.map_eq_some_iff.mp (Option.mem_toList.mp hstep)
    rfl

end Trace.Quiet

theorem Expr.quiet_itemsTrace {items : List Expr} (h : ∀ e ∈ items, e.trace.Quiet) :
    (Expr.itemsTrace items).Quiet := by
  induction items with
  | nil => exact .row (by simp)
  | cons e rest ih =>
      obtain ⟨he, hrest⟩ := List.forall_mem_cons.mp h
      exact he.settling.andThen fun _ => ih hrest

theorem Expr.quiet_attemptsTrace {arguments : List Expr} (h : ∀ e ∈ arguments, e.trace.Quiet) :
    (Expr.attemptsTrace arguments).Quiet := by
  induction arguments with
  | nil => exact .row (by simp)
  | cons e rest ih =>
      obtain ⟨he, hrest⟩ := List.forall_mem_cons.mp h
      exact he.andThen fun _ => ih hrest

theorem Expr.quiet_linksTrace {rest : List (Operator × Expr)}
    (h : ∀ link ∈ rest, link.2.trace.Quiet) : (Expr.linksTrace rest).Quiet := by
  induction rest with
  | nil => exact .row (by simp)
  | cons link rest ih =>
      obtain ⟨op, e⟩ := link
      obtain ⟨he, hrest⟩ := List.forall_mem_cons.mp h
      refine he.settling.andThen fun value => ?_
      exact (Trace.Quiet.row (by simp [Step.isQuiet])).andThen fun _ => ih hrest

/-- The steps of an expression are quiet. -/
theorem Expr.quiet_trace (e : Expr) : e.trace.Quiet := by
  induction e using Expr.induct with
  | literal l => exact .row (by simp)
  | name name => exact .row (by simp [Step.isQuiet])
  | array items ih => exact Expr.quiet_itemsTrace ih
  | call function arguments ih =>
      refine (Expr.quiet_attemptsTrace ih).andThen fun results => ?_
      exact (Trace.Quiet.settledSteps results).andThen fun values =>
        .row (by simp [Step.isQuiet])
  | member base names ih => exact ih.andThen fun value => .properties value names
  | chain first rest hfirst hrest =>
      by_cases hempty : rest.isEmpty = true
      · simpa only [Expr.trace, hempty, if_true] using hfirst
      · simp only [Expr.trace, hempty]
        exact hfirst.settling.andThen fun _ => Expr.quiet_linksTrace hrest
  | not operand ih => exact ih.settling
  | unsupported => exact .row (by simp [Step.isQuiet])

theorem Expr.quiet_argumentsTrace (arguments : List Expr) :
    (Expr.argumentsTrace arguments).Quiet :=
  (Expr.quiet_attemptsTrace fun e _ => e.quiet_trace).andThen Trace.Quiet.settledSteps

/-- Quiet steps leave variables, plots and highlights as they are. -/
theorem replay_frame (setting : Setting) (s : State) {steps : List Step}
    (h : ∀ step ∈ steps, step.isQuiet = true) :
    (replay setting s steps).bindings = s.bindings ∧ (replay setting s steps).plots = s.plots ∧
      (replay setting s steps).highlights = s.highlights := by
  induction steps generalizing s with
  | nil => exact ⟨rfl, rfl, rfl⟩
  | cons step rest ih =>
      obtain ⟨hstep, hrest⟩ := List.forall_mem_cons.mp h
      obtain ⟨hbindings, hplots, hhighlights⟩ := Step.frame_of_quiet setting s hstep
      obtain ⟨hbindings', hplots', hhighlights'⟩ := ih (step.apply setting s) hrest
      exact ⟨hbindings'.trans hbindings, hplots'.trans hplots, hhighlights'.trans hhighlights⟩

/-- A computation with quiet steps leaves variables, plots and highlights as they are. -/
theorem Traces.frame {α : Type} {t : Trace} {x : Run α} (h : Traces t x) (ht : t.Quiet)
    {setting : Setting} {s s' : State} {r : Except Stop α} (hx : x setting s = (r, s')) :
    s'.bindings = s.bindings ∧ s'.plots = s.plots ∧ s'.highlights = s.highlights := by
  have hframe := replay_frame setting s (ht setting s)
  rw [h setting s, hx] at hframe
  exact hframe

section Evaluation

variable {setting : Setting} {s s' : State}

/-- The evaluation of an expression leaves variables, plots and highlights as they are, whatever it
ends with. -/
theorem Expr.frame_eval (e : Expr) {r : Except Stop Value} (h : e.eval setting s = (r, s')) :
    s'.bindings = s.bindings ∧ s'.plots = s.plots ∧ s'.highlights = s.highlights :=
  e.traces_eval.frame e.quiet_trace h

theorem Expr.frame_evalArguments {arguments : List Expr} {r : Except Stop (List (Option Value))}
    (h : Expr.evalArguments arguments setting s = (r, s')) :
    s'.bindings = s.bindings ∧ s'.plots = s.plots ∧ s'.highlights = s.highlights :=
  (Expr.traces_evalArguments arguments).frame (Expr.quiet_argumentsTrace arguments) h

end Evaluation

end MetricScript
