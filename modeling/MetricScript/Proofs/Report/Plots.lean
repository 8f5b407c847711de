import MetricScript.Proofs.Report.Complete
import MetricScript.Proofs.Run.Boundary

/-! # Where plots come from

A plot is handed over by a plot statement only, and what it is made of is settled by the values of
the arguments of that statement. A plot statement that hands nothing over says so in the report. -/

namespace MetricScript

open Run Trace

/-! ## What a plot is made of -/

/-- The chart type of a plot that has a text for it; a text that names none stands for an area. -/
def ChartType.ofText (text : String) : ChartType :=
  if text = "bar" then .bar else .area

theorem ChartType.getD_ofName? (text : String) :
    (Named.ofName? text).getD .area = ChartType.ofText text := by
  by_cases harea : text = "area"
  · subst harea
    rfl
  · by_cases hbar : text = "bar"
    · subst hbar
      rfl
    · simp [Named.ofName?, Named.members, Named.name, Ne.symm harea, Ne.symm hbar,
        ChartType.ofText, hbar]

/-- A plot is made of the values of arguments as it should be: the handles among them are left out,
there is something to draw, and the styles are those that the arguments ask for. -/
structure Plot.DrawnFrom (values : List (Option Value)) (plot : Plot) : Prop where
  series : Builtin.argument? values 0 = some plot.series
  series_ne_entity : ∀ entity, plot.series ≠ .entity entity
  series_nonempty : plot.series.isEmptyCollection = false
  label : plot.label = (Builtin.argument? values 1).bind Value.string?
  chartType : ∀ type, plot.chartType = some type ↔
    ∃ text, Builtin.argument? values 2 = some (.string text) ∧ type = ChartType.ofText text
  color : ∀ text, plot.color = some text ↔
    Builtin.argument? values 3 = some (.string text) ∧ Color.isValid text = true
  dashed : plot.dashed = (withoutHandle (Builtin.argument? values 4)).map Value.truthy
  group : plot.group = withoutHandle (Builtin.argument? values 5)
  group_ne_entity : ∀ entity, plot.group ≠ some (.entity entity)

theorem Run.withoutHandle_eq_some_iff {value : Option Value} {v : Value} :
    withoutHandle value = some v ↔ value = some v ∧ ∀ entity, v ≠ .entity entity := by
  rcases value with _ | (_ | _ | _ | _) <;> simp only [withoutHandle] <;> grind

theorem Value.string?_eq_some_iff {v : Value} {text : String} :
    v.string? = some text ↔ v = .string text := by
  rcases v with (_ | _ | _ | _) | _ | _ | _ <;> simp [string?, string]

/-- A handle is no text. -/
theorem Run.withoutHandle_bind_string? (value : Option Value) :
    (withoutHandle value).bind Value.string? = value.bind Value.string? := by
  rcases value with _ | (_ | _ | _ | _) <;> rfl

theorem Builtin.argument?_map_withoutHandle (values : List (Option Value)) (i : Nat) :
    argument? (values.map withoutHandle) i = withoutHandle (argument? values i) := by
  simp only [argument?, List.getElem?_map]
  rcases values[i]? with _ | value <;> rfl

theorem Run.plotOf_drawnFrom {values : List (Option Value)} {series : Value}
    (h : Builtin.argument? (values.map withoutHandle) 0 = some series)
    (hnonempty : series.isEmptyCollection = false) :
    (plotOf (values.map withoutHandle) series).DrawnFrom values := by
  rw [Builtin.argument?_map_withoutHandle] at h
  obtain ⟨hseries, hvalue⟩ := withoutHandle_eq_some_iff.mp h
  refine ⟨hseries, hvalue, hnonempty, ?_, fun type => ?_, fun text => ?_, ?_, ?_, ?_⟩
  · simp only [plotOf, Builtin.argument?_map_withoutHandle, withoutHandle_bind_string?]
  · simp only [plotOf, Builtin.argument?_map_withoutHandle, withoutHandle_bind_string?,
      ChartType.getD_ofName?, Option.map_eq_some_iff, Option.bind_eq_some_iff,
      Value.string?_eq_some_iff, exists_eq_right, eq_comm (a := type)]
  · simp only [plotOf, Builtin.argument?_map_withoutHandle, withoutHandle_bind_string?,
      Option.filter_eq_some_iff, Option.bind_eq_some_iff, Value.string?_eq_some_iff,
      exists_eq_right]
  · simp only [plotOf, Builtin.argument?_map_withoutHandle]
  · simp only [plotOf, Builtin.argument?_map_withoutHandle]
  · intro entity hgroup
    simp only [plotOf, Builtin.argument?_map_withoutHandle] at hgroup
    exact (withoutHandle_eq_some_iff.mp hgroup).2 entity rfl

/-! ## Which steps hand plots over -/

/-- The plot that a step hands over. -/
def Step.drawn? : Step → Option Plot
  | .draw plot => some plot
  | _ => none

theorem Step.plots_apply (step : Step) (setting : Setting) (s : State) :
    (step.apply setting s).plots = s.plots ++ step.drawn?.toList := by
  by_cases hquiet : step.isQuiet = true
  · have hnone : step.drawn? = none := by
      cases step with
      | draw plot => cases hquiet
      | _ => rfl
    rw [(step.frame_of_quiet setting s hquiet).2.1, hnone, Option.toList_none, List.append_nil]
  · cases step with
    | draw plot => rfl
    | bind name value => exact (List.append_nil _).symm
    | unbind name => exact (List.append_nil _).symm
    | mark highlight => exact (List.append_nil _).symm
    | _ => exact absurd rfl hquiet

/-- The plots of a run are those that its steps hand over, in order. -/
theorem plots_replay (setting : Setting) (s : State) (steps : List Step) :
    (replay setting s steps).plots = s.plots ++ steps.filterMap Step.drawn? := by
  induction steps generalizing s with
  | nil => exact (List.append_nil _).symm
  | cons step rest ih =>
      rw [replay_cons, ih, step.plots_apply, List.append_assoc]
      cases h : step.drawn? <;> simp [h]

theorem mem_plots_replay {setting : Setting} {s : State} {steps : List Step} {plot : Plot} :
    plot ∈ (replay setting s steps).plots ↔ plot ∈ s.plots ∨ .draw plot ∈ steps := by
  have hdrawn : ∀ step : Step, step.drawn? = some plot ↔ step = .draw plot := by
    intro step
    cases step <;> simp [Step.drawn?]
  simp [plots_replay, hdrawn]

section Steps

variable {setting : Setting} {s s' : State} {plot : Plot}

theorem Trace.mem_andThen {α : Type} {t : Trace} {x : Run α} {next : α → Trace} {step : Step} :
    step ∈ t.andThen x next setting s ↔
      step ∈ t setting s ∨ ∃ a s', x setting s = (.ok a, s') ∧ step ∈ next a setting s' := by
  rw [Trace.andThen, List.mem_append]
  rcases x setting s with ⟨stop | a, s'⟩
  · simp
  · simp only [Prod.mk.injEq, Except.ok.injEq, and_assoc, exists_eq_left', exists_and_left]

theorem Trace.Quiet.draw_not_mem {t : Trace} (ht : t.Quiet) : .draw plot ∉ t setting s :=
  fun h => absurd (ht setting s _ h) Bool.false_ne_true

theorem Trace.draw_mem_containing {t : Trace} {x : Run Unit}
    (h : .draw plot ∈ t.containing x setting s) : .draw plot ∈ t setting s := by
  rcases List.mem_append.mp h with h | h
  · exact h
  · split at h <;> simp at h

theorem Run.draw_mem_plotSteps {values : List (Option Value)}
    (h : .draw plot ∈ row (plotSteps values) setting s) :
    ∃ series, Builtin.argument? values 0 = some series ∧ series.isEmptyCollection = false ∧
      plot = plotOf values series := by
  unfold row plotSteps at h
  cases hseries : Builtin.argument? values 0 with
  | none => simp [hseries] at h
  | some series =>
      cases hempty : series.isEmptyCollection with
      | true => simp [hseries, hempty] at h
      | false =>
          simp only [hseries, hempty, Bool.false_eq_true, if_false] at h
          rcases List.mem_append.mp h with h | h
          · exact absurd (Quiet.styling values setting s _ h) Bool.false_ne_true
          · cases List.mem_singleton.mp h
            exact ⟨series, rfl, hempty, rfl⟩

/-- When handles are refused, the other values stay as they are. -/
theorem Run.refuseHandles_of_evalArguments {arguments : List Expr} {values : List (Option Value)}
    (h : Expr.evalArguments arguments setting s = (.ok values, s')) :
    refuseHandles arguments values setting s' = (.ok (values.map withoutHandle),
      s'.recording ((List.zipWith (fun e => handleFailure? e.variable?) arguments
        values).filterMap id)) := by
  have hlength := Expr.length_evalArguments h
  have hvalues : List.zipWith (fun _ => withoutHandle) arguments values =
      values.map withoutHandle := by
    apply List.ext_getElem <;> simp [hlength]
  rw [refuseHandles_apply, hvalues]

/-- A plot is handed over by a plot statement, made of the values of its arguments. -/
theorem Statement.of_draw_mem {statement : Statement}
    (h : .draw plot ∈ statement.trace setting s) :
    ∃ arguments values s', statement = .plot arguments ∧
      Expr.evalArguments arguments setting s = (.ok values, s') ∧ plot.DrawnFrom values := by
  cases statement with
  | assignment name value =>
      cases value with
      | none => simp [Statement.trace, row] at h
      | some e =>
          rcases mem_andThen.mp h with h | ⟨result, s', -, h⟩
          · exact absurd h e.quiet_trace.draw_not_mem
          · cases result <;> simp [row] at h
  | plot arguments =>
      by_cases hempty : arguments.isEmpty = true
      · simp [Statement.trace, hempty, row] at h
      · simp only [Statement.trace, hempty] at h
        rcases mem_andThen.mp h with h | ⟨values, s', hvalues, h⟩
        · exact absurd h (Expr.quiet_argumentsTrace arguments).draw_not_mem
        · -- Neither the arguments nor the checks for handles hand a plot over.
          rcases mem_andThen.mp h with h | ⟨rights, t, hrights, h⟩
          · exact absurd h (Trace.Quiet.checks arguments values).draw_not_mem
          · rw [refuseHandles_of_evalArguments hvalues] at hrights
            cases hrights
            obtain ⟨series, hseries, hnonempty, rfl⟩ := draw_mem_plotSteps h
            exact ⟨arguments, values, s', rfl, hvalues, plotOf_drawnFrom hseries hnonempty⟩
  | highlight arguments =>
      rcases mem_andThen.mp h with h | ⟨values, s', -, h⟩
      · exact absurd h (Expr.quiet_argumentsTrace arguments).draw_not_mem
      · simp [row] at h
  | expression e => simp [Statement.trace, row] at h
  | unsupported rule => simp [Statement.trace, row] at h

/-- A plot that statements hand over is handed over by one of them, from the state that the ones
before it leave. -/
theorem of_draw_mem_statementsTrace {statements : List Statement}
    (h : .draw plot ∈ statementsTrace statements setting s) :
    ∃ front arguments rest values s', statements = front ++ .plot arguments :: rest ∧
      Expr.evalArguments arguments setting (stateAfter setting s front) = (.ok values, s') ∧
      plot.DrawnFrom values := by
  induction statements generalizing s with
  | nil => simp [statementsTrace, row] at h
  | cons statement statements ih =>
      -- The first statement hands the plot over, or one of those that start where it ends.
      rcases mem_andThen.mp h with h | ⟨⟨⟩, t, hcontain, h⟩
      · obtain ⟨arguments, values, s', rfl, hvalues, hplot⟩ :=
          Statement.of_draw_mem (draw_mem_containing h)
        exact ⟨[], arguments, statements, values, s', rfl, hvalues, hplot⟩
      · rw [statement.contain_exec] at hcontain
        cases hcontain
        obtain ⟨front, arguments, rest, values, s', rfl, hvalues, hplot⟩ := ih h
        exact ⟨statement :: front, arguments, rest, values, s', rfl, hvalues, hplot⟩

end Steps

/-! ## Plot statements that hand nothing over -/

section Missing

variable {setting : Setting} {s s' : State}

/-- An argument without a value has left a failure. -/
theorem Expr.failures_of_missing {arguments : List Expr} {values : List (Option Value)}
    (h : evalArguments arguments setting s = (.ok values, s')) (hmissing : none ∈ values) :
    s.failures.length < s'.failures.length := by
  obtain ⟨results, t, hresults, hsettle⟩ := bind_eq_ok_iff.mp h
  have hgrows :=
    ((traces_attemptAll fun e _ => e.traces_eval).failures_isPrefix hresults).length_le
  rw [settleResults_apply] at hsettle
  cases hsettle
  obtain ⟨result, hresult, hnone⟩ := List.mem_map.mp hmissing
  cases result with
  | ok v => cases hnone
  | error f =>
      have hreturned : f ∈ results.filterMap failureOf? :=
        List.mem_filterMap.mpr ⟨.error f, hresult, rfl⟩
      have hpos := List.length_pos_of_mem hreturned
      rw [State.failures_recording, List.length_append]
      omega

/-- A first argument of which nothing is left has left a failure: it had no value, or the value was
refused. -/
theorem Run.failures_of_nothing_drawn {arguments : List Expr} {values : List (Option Value)}
    (hnonempty : arguments ≠ [])
    (h : Expr.evalArguments arguments setting s = (.ok values, s'))
    (hmissing : Builtin.argument? (values.map withoutHandle) 0 = none) :
    s.failures.length < (s'.failures ++ (List.zipWith (fun e => handleFailure? e.variable?)
      arguments values).filterMap id).length := by
  have hgrows := ((Expr.traces_evalArguments arguments).failures_isPrefix h).length_le
  have hlength := Expr.length_evalArguments h
  rw [List.length_append]
  cases arguments with
  | nil => exact absurd rfl hnonempty
  | cons e arguments =>
      cases values with
      | nil => cases hlength
      | cons value values =>
          rw [Builtin.argument?_map_withoutHandle] at hmissing
          rcases value with _ | (_ | _ | entity | _)
          · -- The value is missing from the beginning.
            have hfailed := Expr.failures_of_missing h List.mem_cons_self
            omega
          · cases hmissing
          · cases hmissing
          · -- The value is a handle, and the complaint about it is the first one.
            have hrefused : ((e :: arguments).zipWith (fun e => handleFailure? e.variable?)
                (some (.entity entity) :: values)).filterMap id ≠ [] := List.cons_ne_nil _ _
            have hpos := List.length_pos_iff.mpr hrefused
            omega
          · cases hmissing

/-- A statement that ends badly leaves one failure more than it has recorded by then. -/
theorem Run.length_failures_of_error (stop : Stop) (s : State) :
    (s.recording (recordedEnd? (.error stop)).toList).failures.length = s.failures.length + 1 := by
  cases stop <;> exact List.length_append

/-- A plot statement hands one plot over, made of the values of its arguments, or it leaves a
failure. -/
theorem Statement.plot_drawn_or_failed (arguments : List Expr) (setting : Setting) (s : State) :
    (∃ values s' plot, Expr.evalArguments arguments setting s = (.ok values, s') ∧
      plot.DrawnFrom values ∧
      ((Statement.plot arguments).after setting s).plots = s.plots ++ [plot]) ∨
    ((Statement.plot arguments).after setting s).plots = s.plots ∧
      s.failures.length < ((Statement.plot arguments).after setting s).failures.length := by
  rw [after_eq]
  by_cases hempty : arguments = []
  · subst hempty
    exact .inr ⟨rfl, Nat.lt_of_lt_of_eq (Nat.lt_succ_self _)
      (length_failures_of_error (.failed .nothingToPlot) s).symm⟩
  · rw [Statement.exec, plotArguments_of_ne_nil hempty]
    rcases apply_cases (Expr.evalArguments arguments) setting s with
      ⟨values, t, hvalues⟩ | ⟨stop, t, hstop⟩
    · obtain ⟨-, hplots, -⟩ := Expr.frame_evalArguments hvalues
      have hgrows := ((Expr.traces_evalArguments arguments).failures_isPrefix hvalues).length_le
      rw [bind_apply_ok hvalues, bind_apply_ok (refuseHandles_of_evalArguments hvalues)]
      cases hseries : Builtin.argument? (values.map withoutHandle) 0 with
      | none =>
          rw [plotValues_of_missing hseries]
          refine .inr ⟨hplots, ?_⟩
          simpa [recordedEnd?] using failures_of_nothing_drawn hempty hvalues hseries
      | some series =>
          cases hnonempty : series.isEmptyCollection with
          | true =>
              rw [plotValues_of_empty hseries hnonempty]
              refine .inr ⟨hplots, ?_⟩
              rw [length_failures_of_error]
              exact Nat.lt_succ_of_le
                (Nat.le_trans hgrows (List.prefix_append _ _).length_le)
          | false =>
              rw [plotValues_of_drawn hseries hnonempty]
              refine .inl ⟨values, t, _, hvalues, plotOf_drawnFrom hseries hnonempty, ?_⟩
              exact congrArg (· ++ [_]) hplots
    · obtain ⟨-, hplots, -⟩ := Expr.frame_evalArguments hstop
      have hgrows := ((Expr.traces_evalArguments arguments).failures_isPrefix hstop).length_le
      rw [bind_apply_error hstop]
      refine .inr ⟨hplots, ?_⟩
      rw [length_failures_of_error]
      exact Nat.lt_succ_of_le hgrows

end Missing

/-- Every plot of every reachable state was handed over by a plot statement of a script that was run
from a reachable state, and it is made of the values that the arguments of the statement had: it has
neither a handle nor an empty collection to draw, no handle for a group, a color only if the text
for it is one, which it is then, and a chart type only if there is a text for it. From every state a
plot statement adds one such plot, or it adds none and is told of in the report. -/
theorem State.Reachable.plots_drawn (setting : Setting) :
    (∀ s : State, s.Reachable setting → ∀ plot ∈ s.plots,
      ∃ (start : State) (script : Script) (front : List Statement) (arguments : List Expr)
          (rest : List Statement) (values : List (Option Value)) (s' : State),
        start.Reachable setting ∧ script.statements = front ++ .plot arguments :: rest ∧
        Expr.evalArguments arguments setting (stateAfter setting start front) =
          (.ok values, s') ∧
        plot.DrawnFrom values) ∧
    ∀ (arguments : List Expr) (s : State),
      (∃ values s' plot, Expr.evalArguments arguments setting s = (.ok values, s') ∧
        plot.DrawnFrom values ∧
        ((Statement.plot arguments).after setting s).plots = s.plots ++ [plot]) ∨
      ((Statement.plot arguments).after setting s).plots = s.plots ∧
        ∃ added, added ≠ [] ∧
          ((Statement.plot arguments).after setting s).diagnostics = s.diagnostics ++ added := by
  refine ⟨fun s hs plot hplot => ?_, fun arguments s => ?_⟩
  · induction hs with
    | initial => cases hplot
    | run hstart script hdone ih =>
        rcases mem_plots_replay.mp hplot with hplot | hdraw
        · exact ih hplot
        · obtain ⟨front, arguments, rest, values, s', hstatements, hvalues, hdrawn⟩ :=
            of_draw_mem_statementsTrace (hdone.subset hdraw)
          exact ⟨_, script, front, arguments, rest, values, s', hstart, hstatements, hvalues,
            hdrawn⟩
  · refine (Statement.plot_drawn_or_failed arguments setting s).imp_right fun ⟨hplots, hmore⟩ => ?_
    have hleads : s.LeadsTo ((Statement.plot arguments).after setting s) :=
      (Statement.plot arguments).traces_exec.containing.leadsTo setting s
    obtain ⟨added, hadded⟩ := hleads.diagnostics
    refine ⟨hplots, added, ?_, hadded.symm⟩
    rintro rfl
    have hlength := congrArg List.length hadded
    simp only [State.diagnostics, List.append_nil, List.length_map] at hlength
    exact Nat.ne_of_lt hmore hlength

/-- A script with a plot that has an unknown chart type and a handle for a group, and with a plot of
a variable that has no value. -/
def Script.plottingStyled : Script where
  statements :=
    [.plot [.array [.literal (.bool true)], .literal .null, .literal (.string "line"),
        .literal (.string "#FFF"), .literal .null, .call "protocol" [.literal (.string "x")]],
      .plot [.variable "u"]]

theorem State.Reachable.plots_drawn_styled :
    ∃ s : State, s.Reachable { source := .ofData [] } ∧
      (∃ plot ∈ s.plots, plot.chartType = some .area ∧ plot.color = some "#FFF" ∧
        ∃ values, plot.DrawnFrom values ∧ plot.group = withoutHandle (Builtin.argument? values 5)) ∧
      s.plots.length = 1 ∧ s.diagnostics.length = 3 := by
  have hreachable : (Script.plottingStyled.exec { source := .ofData [] } {}).2.Reachable
      { source := .ofData [] } :=
    Script.traces_exec .plottingStyled _ {} ▸ .run .initial .plottingStyled (List.prefix_refl _)
  have hstyles : (Script.plottingStyled.exec { source := .ofData [] } {}).2.plots.map
      (fun plot => (plot.chartType, plot.color)) = [(some .area, some "#FFF")] := by
    decide +kernel
  have hcount : (Script.plottingStyled.exec { source := .ofData [] } {}).2.diagnostics.length =
      3 := by
    decide +kernel
  obtain ⟨plot, hplots, hstyle⟩ := List.map_eq_singleton_iff.mp hstyles
  obtain ⟨htype, hcolor⟩ := Prod.mk.inj hstyle
  have hplot : plot ∈ (Script.plottingStyled.exec { source := .ofData [] } {}).2.plots :=
    hplots ▸ List.mem_singleton_self plot
  obtain ⟨-, -, -, -, -, values, -, -, -, -, hdrawn⟩ :=
    (plots_drawn { source := .ofData [] }).1 _ hreachable plot hplot
  exact ⟨_, hreachable, ⟨plot, hplot, htype, hcolor, values, hdrawn, hdrawn.group⟩,
    congrArg List.length hplots, hcount⟩

end MetricScript
