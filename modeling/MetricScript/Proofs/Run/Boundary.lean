import MetricScript.Proofs.Run.Repeat

/-! # The states between statements

A script leads from one state to the next, statement by statement: what a statement leaves behind,
its own failure or crash recorded, is what the next one starts from. Whatever went before stays, and
beyond that every kind of statement has a part of the state of its own to work on. -/

namespace MetricScript

open Run Trace

/-! ## Statement by statement -/

/-- The state after a statement of a script, its own failure or crash recorded. -/
def Statement.after (setting : Setting) (s : State) (statement : Statement) : State :=
  (contain statement.exec setting s).2

/-- The state after statements of a script. -/
def stateAfter (setting : Setting) (s : State) (statements : List Statement) : State :=
  statements.foldl (Statement.after setting) s

section Boundaries

variable {setting : Setting} {s : State}

@[simp] theorem stateAfter_nil : stateAfter setting s [] = s := rfl

@[simp] theorem stateAfter_cons (statement : Statement) (rest : List Statement) :
    stateAfter setting s (statement :: rest) =
      stateAfter setting (statement.after setting s) rest := rfl

theorem stateAfter_append (front rest : List Statement) :
    stateAfter setting s (front ++ rest) = stateAfter setting (stateAfter setting s front) rest :=
  List.foldl_append

theorem Statement.contain_exec (statement : Statement) (setting : Setting) (s : State) :
    contain statement.exec setting s = (.ok (), statement.after setting s) := by
  obtain ⟨s', h⟩ := contain_ok statement.exec setting s
  rw [Statement.after, h]

theorem execAll_cons (statement : Statement) (rest : List Statement) :
    execAll (statement :: rest) setting s = execAll rest setting (statement.after setting s) :=
  bind_apply_ok (statement.contain_exec setting s)

/-- Statements leave the state that is reached when they are taken one by one. -/
theorem execAll_apply (statements : List Statement) (setting : Setting) (s : State) :
    execAll statements setting s = (.ok (), stateAfter setting s statements) := by
  induction statements generalizing s with
  | nil => rfl
  | cons statement rest ih => rw [execAll_cons, ih, stateAfter_cons]

theorem execAll_append (front rest : List Statement) (setting : Setting) (s : State) :
    execAll (front ++ rest) setting s = execAll rest setting (stateAfter setting s front) := by
  rw [execAll_apply, execAll_apply, stateAfter_append]

end Boundaries

/-- The name that a statement assigns to, if it is an assignment. -/
def Statement.target? : Statement → Option String
  | .assignment name _ => some name
  | _ => none

/-! ## What stays -/

/-- Nothing that a run has brought about in one state is lost in the other. -/
structure State.LeadsTo (s s' : State) : Prop where
  plots : s.plots <+: s'.plots
  highlights : s.highlights <+: s'.highlights
  failures : s.failures <+: s'.failures
  series : s.KeptIn s'

namespace State.LeadsTo

variable {s t u : State}

theorem refl (s : State) : s.LeadsTo s :=
  ⟨List.prefix_refl _, List.prefix_refl _, List.prefix_refl _, fun _ _ h => h⟩

theorem trans (hst : s.LeadsTo t) (htu : t.LeadsTo u) : s.LeadsTo u where
  plots := hst.plots.trans htu.plots
  highlights := hst.highlights.trans htu.highlights
  failures := hst.failures.trans htu.failures
  series := hst.series.trans htu.series

theorem diagnostics (h : s.LeadsTo t) : s.diagnostics <+: t.diagnostics :=
  h.failures.map Failure.diagnostic

end State.LeadsTo

/-- A step that is not quiet changes variables, plots or highlights only, and takes no plot and no
highlight back. -/
theorem Step.leadsTo (step : Step) (setting : Setting) (s : State) :
    s.LeadsTo (step.apply setting s) := by
  have hfailures := step.failures_isPrefix setting s
  have hseries : s.KeptIn (step.apply setting s) := fun _ _ h => step.find?_cache setting h
  by_cases hquiet : step.isQuiet = true
  · obtain ⟨-, hplots, hhighlights⟩ := step.frame_of_quiet setting s hquiet
    exact ⟨hplots ▸ List.prefix_refl _, hhighlights ▸ List.prefix_refl _, hfailures, hseries⟩
  · cases step with
    | draw plot => exact ⟨List.prefix_append _ _, List.prefix_refl _, hfailures, hseries⟩
    | mark highlight => exact ⟨List.prefix_refl _, List.prefix_append _ _, hfailures, hseries⟩
    | bind name value => exact ⟨List.prefix_refl _, List.prefix_refl _, hfailures, hseries⟩
    | unbind name => exact ⟨List.prefix_refl _, List.prefix_refl _, hfailures, hseries⟩
    | _ => exact absurd rfl hquiet

theorem leadsTo_replay (setting : Setting) (s : State) (steps : List Step) :
    s.LeadsTo (replay setting s steps) := by
  induction steps generalizing s with
  | nil => exact .refl s
  | cons step rest ih => exact (step.leadsTo setting s).trans (ih _)

/-- A computation with a trace loses nothing, whatever it ends with. -/
theorem Traces.leadsTo {α : Type} {t : Trace} {x : Run α} (h : Traces t x) (setting : Setting)
    (s : State) : s.LeadsTo (x setting s).2 :=
  h setting s ▸ leadsTo_replay setting s (t setting s)

/-! ## What a statement works on -/

/-- What a statement may do apart from recording failures and keeping series. -/
def Statement.Touches (s s' : State) : Statement → Prop
  | .assignment name _ =>
    (∀ other, other ≠ name → s'.bindings.find? other = s.bindings.find? other) ∧
      s'.plots = s.plots ∧ s'.highlights = s.highlights
  | .plot _ =>
    s'.bindings = s.bindings ∧ s'.plots.length ≤ s.plots.length + 1 ∧
      s'.highlights = s.highlights
  | .highlight _ =>
    s'.bindings = s.bindings ∧ s'.plots = s.plots ∧
      s'.highlights.length ≤ s.highlights.length + 1
  | .expression _ => s' = s
  | .unsupported rule => s' = s.recording [.unsupportedStatement rule]

section Statements

variable {setting : Setting} {s s' : State}

/-- How the end of a statement is recorded, if it did not go well. -/
def Run.recordedEnd? : Except Stop Unit → Option Failure
  | .ok () => none
  | .error (.failed f) => some f
  | .error (.crashed message) => some (.crash (message.getD namelessCrash))

theorem Statement.after_eq (statement : Statement) (setting : Setting) (s : State) :
    statement.after setting s = (statement.exec setting s).2.recording
      (recordedEnd? (statement.exec setting s).1).toList := by
  rcases h : statement.exec setting s with ⟨(f | message) | ⟨⟩, s'⟩ <;>
    simp only [Statement.after, contain, h, recordedEnd?]
  · rfl
  · rfl
  · simp

/-! ### Assignments -/

theorem Statement.after_unbinding (name : String) :
    (Statement.assignment name none).after setting s =
      { s with bindings := s.bindings.erase name } := rfl

theorem Statement.after_assignment_of_ok {e : Expr} {v : Value}
    (h : e.eval setting s = (.ok v, s')) (name : String) :
    (Statement.assignment name (some e)).after setting s =
      { s' with bindings := s'.bindings.insert name v } := by
  have hexec : (Statement.assignment name (some e)).exec setting s =
      (.ok (), { s' with bindings := s'.bindings.insert name v }) :=
    bind_apply_ok (attempt_of_ok h)
  simp [after_eq, hexec, recordedEnd?]

theorem Statement.after_assignment_of_failed {e : Expr} {f : Failure}
    (h : e.eval setting s = (.error (.failed f), s')) (name : String) :
    (Statement.assignment name (some e)).after setting s =
      { s'.recording [f] with bindings := s'.bindings.erase name } := by
  have hexec : (Statement.assignment name (some e)).exec setting s =
      (.error (.failed f), { s' with bindings := s'.bindings.erase name }) :=
    bind_apply_ok (attempt_of_failed h)
  rw [after_eq, hexec]
  rfl

theorem Statement.exec_assignment_of_crashed {e : Expr} {message : Option String}
    (h : e.eval setting s = (.error (.crashed message), s')) (name : String) :
    (Statement.assignment name (some e)).exec setting s = (.error (.crashed message), s') :=
  bind_apply_error (attempt_of_crashed h)

/-! ### Plots and highlights -/

/-- Plotting values adds at most one plot. -/
theorem Run.plotValues_state (values : List (Option Value)) (setting : Setting) (s : State) :
    (plotValues values setting s).2.bindings = s.bindings ∧
      (plotValues values setting s).2.plots.length ≤ s.plots.length + 1 ∧
      (plotValues values setting s).2.highlights = s.highlights := by
  cases h : Builtin.argument? values 0 with
  | none =>
      rw [plotValues_of_missing h]
      exact ⟨rfl, Nat.le_succ _, rfl⟩
  | some series =>
      cases he : series.isEmptyCollection with
      | true =>
          rw [plotValues_of_empty h he]
          exact ⟨rfl, Nat.le_succ _, rfl⟩
      | false =>
          rw [plotValues_of_drawn h he]
          exact ⟨rfl, by simp, rfl⟩

theorem Run.plotArguments_of_ne_nil {arguments : List Expr} (h : arguments ≠ []) :
    plotArguments arguments = Expr.evalArguments arguments >>= fun values =>
      refuseHandles arguments values >>= plotValues := by
  simp [plotArguments, h]

theorem Run.plotArguments_state (arguments : List Expr) (setting : Setting) (s : State) :
    (plotArguments arguments setting s).2.bindings = s.bindings ∧
      (plotArguments arguments setting s).2.plots.length ≤ s.plots.length + 1 ∧
      (plotArguments arguments setting s).2.highlights = s.highlights := by
  by_cases hempty : arguments = []
  · subst hempty
    exact ⟨rfl, Nat.le_succ _, rfl⟩
  · rw [plotArguments_of_ne_nil hempty]
    rcases apply_cases (Expr.evalArguments arguments) setting s with
      ⟨values, t, h⟩ | ⟨stop, t, h⟩
    · obtain ⟨hbindings, hplots, hhighlights⟩ := Expr.frame_evalArguments h
      rw [bind_apply_ok h, bind_apply_ok (refuseHandles_apply arguments values setting t),
        ← hbindings, ← hplots, ← hhighlights]
      exact plotValues_state _ setting (t.recording _)
    · obtain ⟨hbindings, hplots, hhighlights⟩ := Expr.frame_evalArguments h
      rw [bind_apply_error h]
      exact ⟨hbindings, hplots ▸ Nat.le_succ _, hhighlights⟩

/-- A highlight is added once its arguments are evaluated, and otherwise not at all. -/
theorem Run.highlight_state (arguments : List Expr) (setting : Setting) (s : State) :
    ((Statement.highlight arguments).exec setting s).2.bindings = s.bindings ∧
      ((Statement.highlight arguments).exec setting s).2.plots = s.plots ∧
      ((Statement.highlight arguments).exec setting s).2.highlights.length ≤
        s.highlights.length + 1 := by
  rcases apply_cases (Expr.evalArguments arguments) setting s with ⟨values, t, h⟩ | ⟨stop, t, h⟩
  · obtain ⟨hbindings, hplots, hhighlights⟩ := Expr.frame_evalArguments h
    have hexec : (Statement.highlight arguments).exec setting s =
        (.ok (), { t with highlights := t.highlights ++ [⟨values⟩] }) := bind_apply_ok h
    rw [hexec, ← hhighlights]
    exact ⟨hbindings, hplots, by simp⟩
  · obtain ⟨hbindings, hplots, hhighlights⟩ := Expr.frame_evalArguments h
    have hexec : (Statement.highlight arguments).exec setting s = (.error stop, t) :=
      bind_apply_error h
    rw [hexec]
    exact ⟨hbindings, hplots, hhighlights ▸ Nat.le_succ _⟩

/-! ### Every kind -/

theorem Statement.touches_assignment (name : String) (value : Option Expr) (setting : Setting)
    (s : State) :
    (Statement.assignment name value).Touches s
      ((Statement.assignment name value).after setting s) := by
  cases value with
  | none =>
      rw [after_unbinding]
      exact ⟨fun other hother => NameMap.find?_erase_of_ne _ hother, rfl, rfl⟩
  | some e =>
      rcases h : e.eval setting s with ⟨(f | message) | v, t⟩
      · obtain ⟨hbindings, hplots, hhighlights⟩ := e.frame_eval h
        rw [after_assignment_of_failed h]
        refine ⟨fun other hother => ?_, hplots, hhighlights⟩
        rw [← hbindings]
        exact NameMap.find?_erase_of_ne _ hother
      · obtain ⟨hbindings, hplots, hhighlights⟩ := e.frame_eval h
        rw [after_eq, exec_assignment_of_crashed h]
        exact ⟨fun other _ => congrArg (NameMap.find? · other) hbindings, hplots, hhighlights⟩
      · obtain ⟨hbindings, hplots, hhighlights⟩ := e.frame_eval h
        rw [after_assignment_of_ok h]
        refine ⟨fun other hother => ?_, hplots, hhighlights⟩
        rw [← hbindings]
        exact NameMap.find?_insert_of_ne _ hother v

theorem Statement.touches_after (statement : Statement) (setting : Setting) (s : State) :
    statement.Touches s (statement.after setting s) := by
  cases statement with
  | assignment name value => exact touches_assignment name value setting s
  | plot arguments =>
      rw [after_eq]
      exact plotArguments_state arguments setting s
  | highlight arguments =>
      rw [after_eq]
      exact highlight_state arguments setting s
  | expression e => rfl
  | unsupported rule => rfl

end Statements

/-- A statement of a script loses nothing that was there before it, and beyond recording failures
and keeping series each kind of statement touches its own part of the state only. Expressions touch
none of variables, plots and highlights, whatever they end with. -/
theorem Statement.touches_own_part (statement : Statement) (rest : List Statement)
    (setting : Setting) (s : State) :
    execAll (statement :: rest) setting s = execAll rest setting (statement.after setting s) ∧
      s.LeadsTo (statement.after setting s) ∧
      s.diagnostics <+: (statement.after setting s).diagnostics ∧
      statement.Touches s (statement.after setting s) ∧
      ∀ e : Expr, s.LeadsTo (e.eval setting s).2 ∧ (e.eval setting s).2.bindings = s.bindings ∧
        (e.eval setting s).2.plots = s.plots ∧ (e.eval setting s).2.highlights = s.highlights := by
  have hleads := statement.traces_exec.containing.leadsTo setting s
  exact ⟨execAll_cons statement rest, hleads, hleads.diagnostics,
    statement.touches_after setting s,
    fun e => ⟨e.traces_eval.leadsTo setting s, e.frame_eval rfl⟩⟩

end MetricScript
