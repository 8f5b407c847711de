import MetricScript.Proofs.Run.Evaluation

/-! # Every state of a run is sound

The steps of a statement keep a state sound, because what a statement binds, draws or marks is the
value of an expression. A script therefore passes through sound states only, from its first step to
its last, across statements that fail or crash. -/

namespace MetricScript

open Run Trace

/-! ## Conditions along a trace -/

section Along

variable {I : State → Prop} {setting : Setting} {s : State} {t : Trace}

theorem Throughout.andThen {α : Type} {x : Run α} {next : α → Trace} (hx : Traces t x)
    (ht : Throughout I setting s (t setting s))
    (hnext : ∀ a s', x setting s = (.ok a, s') → I s' →
      Throughout I setting s' (next a setting s')) :
    Throughout I setting s (t.andThen x next setting s) := by
  have hlast := ht.last
  refine (throughout_append _ _).mpr ⟨ht, ?_⟩
  rw [hx setting s] at hlast ⊢
  rcases apply_cases x setting s with ⟨a, s', h⟩ | ⟨stop, s', h⟩
  · simp only [h] at hlast ⊢
    exact hnext a s' h hlast
  · simp only [h] at hlast ⊢
    exact hlast

/-- The steps of a statement with the recording of its failure or crash. -/
theorem Throughout.containing {x : Run Unit} (ht : Throughout I setting s (t setting s))
    (hrecord : ∀ f s', I s' → I (s'.recording [f])) :
    Throughout I setting s (t.containing x setting s) := by
  refine (throughout_append _ _).mpr ⟨ht, ?_⟩
  have hrow (f : Failure) : Throughout I setting (replay setting s (t setting s)) [.record f] :=
    ⟨ht.last, hrecord f _ ht.last⟩
  split
  · exact ht.last
  · exact hrow _
  · exact hrow _

end Along

section Statements

variable {P : Series → Prop} {setting : Setting} {s s' : State}

/-! ## Plots -/

/-- A handle that is refused is missing, and its refusal is recorded. -/
theorem Run.refuseHandle_sound {name : Option String} {value right : Option Value}
    (hvalue : Value.Sound P (s.failures ≠ []) value)
    (h : refuseHandle name value setting s = (.ok right, s')) :
    Value.Sound P (s'.failures ≠ []) right := by
  rw [refuseHandle_apply] at h
  cases h
  cases hvalue with
  | missing hmissing => exact .missing (by simpa [handleFailure?] using hmissing)
  | scalar x => exact .scalar x
  | series ht => exact .series ht
  | entity entity => exact .missing (by simp [handleFailure?])
  | list hitems => exact .list (by simpa [handleFailure?] using hitems)

theorem Run.refuseHandles_sound {arguments : List Expr} {values rights : List (Option Value)}
    (hvalues : ∀ value ∈ values, Value.Sound P (s.failures ≠ []) value)
    (h : refuseHandles arguments values setting s = (.ok rights, s')) :
    ∀ right ∈ rights, Value.Sound P (s'.failures ≠ []) right := by
  induction arguments generalizing values rights s with
  | nil =>
      cases h
      exact fun _ hright => absurd hright List.not_mem_nil
  | cons e arguments ih =>
      cases values with
      | nil =>
          cases h
          exact fun _ hright => absurd hright List.not_mem_nil
      | cons value values =>
          rcases List.forall_mem_cons.mp hvalues with ⟨hvalue, hvalues⟩
          rw [refuseHandles] at h
          rcases bind_eq_ok_iff.mp h with ⟨right, s₁, hright, h⟩
          rcases bind_eq_ok_iff.mp h with ⟨others, s₂, hothers, h⟩
          cases h
          have hlater := (Traces.refuseHandle _ value).granted hright
          have hlast := (Traces.refuseHandles arguments values).granted hothers
          exact List.forall_mem_cons.mpr
            ⟨(refuseHandle_sound hvalue hright).mono hlast,
              ih (fun v hv => (hvalues v hv).mono hlater) hothers⟩

theorem plotOf_sound {granted : Prop} {values : List (Option Value)}
    (hvalues : ∀ value ∈ values, Value.Sound P granted value) {series : Value}
    (h : Builtin.argument? values 0 = some series) :
    Value.Sound P granted (some (plotOf values series).series) ∧
      ∀ group, (plotOf values series).group = some group → Value.Sound P granted (some group) :=
  ⟨hvalues _ (Builtin.mem_of_argument? h), fun _ hgroup =>
    hvalues _ (Builtin.mem_of_argument? hgroup)⟩

variable (hsource : setting.source.Gives P)

include hsource

theorem throughout_plotSteps {values : List (Option Value)} (hs : s.Sound P)
    (hvalues : ∀ value ∈ values, Value.Sound P (s.failures ≠ []) value) :
    Throughout (State.Sound P) setting s (plotSteps values) := by
  unfold plotSteps
  split
  · exact hs
  · rename_i series h
    split
    · exact ⟨hs, hs⟩
    · -- The checks of the style are quiet; only then something is drawn.
      have hstyle := (Trace.Quiet.styling values).throughout_sound hsource hs
      have hlater := (failures_isPrefix_replay setting s (styleSteps values)).ne_nil
      rcases plotOf_sound (fun v hv => (hvalues v hv).mono hlater) h with ⟨hseries, hgroup⟩
      exact (throughout_append _ _).mpr ⟨hstyle, hstyle.last, hstyle.last.draw hseries hgroup⟩

/-! ## Statements and scripts -/

variable (hP : Series.Hereditary P)

include hP

theorem Expr.evalArguments_sound_of_hereditary {arguments : List Expr} (hs : s.Sound P)
    {values : List (Option Value)}
    (heval : Expr.evalArguments arguments setting s = (.ok values, s')) :
    ∀ value ∈ values, Value.Sound P (s'.failures ≠ []) value :=
  Expr.evalArguments_sound hsource (fun e _ => e.sound_eval hsource hP) hs heval

/-- A statement passes through sound states only. -/
theorem Statement.throughout_sound (statement : Statement) (hs : s.Sound P) :
    Throughout (State.Sound P) setting s (statement.trace setting s) := by
  have hquiet {t : Trace} (ht : t.Quiet) {s : State} (hs : s.Sound P) :
      Throughout (State.Sound P) setting s (t setting s) := ht.throughout_sound hsource hs
  cases statement with
  | assignment name value =>
      cases value with
      | none => exact ⟨hs, hs.unbind name⟩
      | some e =>
          refine Throughout.andThen e.traces_eval.attempt (hquiet e.quiet_trace hs)
            fun result s' hresult hs' => ?_
          rcases attempt_cases hresult with ⟨v, hv, rfl⟩ | ⟨f, -, rfl⟩
          · exact ⟨hs', hs'.bind (e.sound_eval hsource hP hs hv) name⟩
          · exact ⟨hs', hs'.unbind name⟩
  | plot arguments =>
      simp only [Statement.trace]
      split
      · exact ⟨hs, hs⟩
      · refine Throughout.andThen (Expr.traces_evalArguments arguments)
          (hquiet (Expr.quiet_argumentsTrace arguments) hs) fun values s₁ hvalues hs₁ => ?_
        have hsound := Expr.evalArguments_sound_of_hereditary hsource hP hs hvalues
        refine Throughout.andThen (Traces.refuseHandles arguments values)
          (hquiet (.checks arguments values) hs₁) fun rights s₂ hrights hs₂ => ?_
        exact throughout_plotSteps hsource hs₂ (refuseHandles_sound hsound hrights)
  | highlight arguments =>
      refine Throughout.andThen (Expr.traces_evalArguments arguments)
        (hquiet (Expr.quiet_argumentsTrace arguments) hs) fun values s₁ hvalues hs₁ => ?_
      exact ⟨hs₁, hs₁.mark (Expr.evalArguments_sound_of_hereditary hsource hP hs hvalues)⟩
  | expression e => exact hs
  | unsupported rule => exact ⟨hs, hs⟩

/-- A statement with the recording of its failure or crash passes through sound states only. -/
theorem Statement.throughout_sound_containing (statement : Statement) (hs : s.Sound P) :
    Throughout (State.Sound P) setting s
      (statement.trace.containing statement.exec setting s) :=
  (statement.throughout_sound hsource hP hs).containing fun f _ h => h.recording [f]

theorem Run.contain_sound (statement : Statement) (hs : s.Sound P) {r : Except Stop Unit}
    (h : contain statement.exec setting s = (r, s')) : s'.Sound P := by
  have hlast := (statement.throughout_sound_containing hsource hP hs).last
  rw [statement.traces_exec.containing setting s, h] at hlast
  exact hlast

/-- Statements pass through sound states only. -/
theorem throughout_sound_statements (statements : List Statement) (hs : s.Sound P) :
    Throughout (State.Sound P) setting s (statementsTrace statements setting s) := by
  induction statements generalizing s with
  | nil => exact hs
  | cons statement rest ih =>
      exact (statement.throughout_sound_containing hsource hP hs).andThen
        statement.traces_exec.containing fun _ _ _ hs' => ih hs'

/-- Whatever statements leave behind is sound. -/
theorem execAll_sound {statements : List Statement} (hs : s.Sound P) {r : Except Stop Unit}
    (h : execAll statements setting s = (r, s')) : s'.Sound P := by
  have hlast := (throughout_sound_statements hsource hP statements hs).last
  rw [traces_execAll statements setting s, h] at hlast
  exact hlast

end Statements

/-! ## Series in order of time -/

theorem Source.gives_increasing {source : Source}
    (h : source.Gives fun t => ∃ points, t = .ofPoints points) :
    source.Gives Series.Increasing := by
  intro earlier call t ht
  rcases h earlier call t ht with ⟨points, rfl⟩
  exact Series.increasing_ofPoints points

/-- A fixed set of series has the property that each of them and the empty series have. -/
theorem Source.ofData_gives {P : Series → Prop} {data : List (Call × Series)} (hempty : P .empty)
    (h : ∀ entry ∈ data, P entry.2) : (Source.ofData data).Gives P := by
  intro earlier call t ht
  cases ht
  cases hfound : data.reverse.lookup call with
  | none => exact hempty
  | some t => exact h _ (List.mem_reverse.mp (NameMap.mem_of_lookup hfound))

/-- The states that can be reached by running scripts one after the other, each of them to its end
or up to some step. -/
inductive State.Reachable (setting : Setting) : State → Prop where
  | initial : State.Reachable setting {}
  | run {s : State} (hs : State.Reachable setting s) (script : Script) {done : List Step}
      (hdone : done <+: script.trace setting s) : State.Reachable setting (replay setting s done)

theorem State.Reachable.sound {P : Series → Prop} {setting : Setting} {s : State}
    (hs : State.Reachable setting s) (hsource : setting.source.Gives P)
    (hP : Series.Hereditary P) : s.Sound P := by
  induction hs with
  | initial => exact .initial
  | run _ script hdone ih =>
      exact (throughout_sound_statements hsource hP script.statements ih).of_isPrefix hdone

/-- If the source makes its series from points, the times of every series in every reachable state
strictly increase, and so they do in a series that comes out of an operator, a built-in function, a
list of points or a document. -/
theorem State.Reachable.series_increasing (setting : Setting)
    (hsource : setting.source.Gives fun t => ∃ points, t = .ofPoints points) :
    (∀ s : State, s.Reachable setting → ∀ t, s.report.Holds (some (.series t)) → t.Increasing) ∧
    (∀ (op : Operator) left right now, SeriesOperand Series.Increasing left →
      SeriesOperand Series.Increasing right →
        (op.apply left right now).Increasing ∧ (op.compare left right now).Increasing) ∧
    (∀ operand now, SeriesOperand Series.Increasing operand →
      (Value.negate operand now).Increasing) ∧
    (∀ (b : Builtin) arguments window now v,
      (∀ a ∈ arguments, ∀ t, Value.Part (some (.series t)) a → t.Increasing) →
        b.apply arguments window now = .ok v →
          ∀ t, Value.Part (some (.series t)) (some v) → t.Increasing) ∧
    (∀ points, (Series.ofPoints points).Increasing) ∧
    ∀ j t, Series.ofJson? j = some t → t.Increasing := by
  have hP := Series.hereditary_increasing
  refine ⟨?_, ?_, ?_, ?_, Series.increasing_ofPoints, fun j t => Series.increasing_of_ofJson?⟩
  · intro s hs t ht
    have hsound := hs.sound (Source.gives_increasing hsource) hP
    exact (hsound.of_holds ht).of_series
  · intro op left right now hl hr
    exact ⟨Operator.apply_hereditary hP hl hr op now, Operator.compare_hereditary hP hl hr op now⟩
  · exact fun operand now h => Value.negate_hereditary hP h now
  · intro b arguments window now v harguments hv t ht
    have hsound : ∀ a ∈ arguments, Value.Sound Series.Increasing True a := by
      intro a ha
      cases a with
      | none => exact .missing trivial
      | some w => exact .of_parts w fun t ht => harguments _ ha t ht
    exact ((Builtin.apply_sound hP hsound hv).of_part ht).of_series

/-- A setting in which two points of one metric are known, given out of order. -/
def Setting.withTwoPoints : Setting where
  source := .ofData [(⟨.protocolTvl, "x"⟩, .ofPoints [⟨2, none⟩, ⟨1, none⟩])]

/-- A script that binds a variable to a metric. -/
def Script.bindingTvl : Script where
  statements :=
    [.assignment "a" (some (.member (.call "protocol" [.literal (.string "x")]) ["tvl"]))]

theorem State.Reachable.series_increasing_two_points :
    (Setting.withTwoPoints.source.Gives fun t => ∃ points, t = .ofPoints points) ∧
    ∃ t, (Script.bindingTvl.interpret .withTwoPoints).Holds (some (.series t)) ∧
      t.times = [1, 2] ∧ t.Increasing := by
  have hsource : Setting.withTwoPoints.source.Gives fun t => ∃ points, t = .ofPoints points := by
    refine Source.ofData_gives ⟨[], rfl⟩ fun entry hentry => ?_
    rw [List.mem_singleton.mp hentry]
    exact ⟨_, rfl⟩
  have hreachable : (Script.bindingTvl.exec .withTwoPoints {}).2.Reachable .withTwoPoints :=
    Script.traces_exec .bindingTvl .withTwoPoints {} ▸
      .run .initial .bindingTvl (List.prefix_refl _)
  have hbound : (((Script.bindingTvl.exec .withTwoPoints {}).2.bindings.find? "a").bind
      Value.series?).map Series.times = some [1, 2] := by
    decide +kernel
  rcases Option.map_eq_some_iff.mp hbound with ⟨t, ht, htimes⟩
  rcases Option.bind_eq_some_iff.mp ht with ⟨v, hv, hseries⟩
  have hholds : (Script.bindingTvl.interpret .withTwoPoints).Holds (some (.series t)) := by
    cases v <;> simp only [Value.series?, reduceCtorEq, Option.some.injEq] at hseries
    subst hseries
    exact .bound (NameMap.mem_of_find? hv) .self
  exact ⟨hsource, t, hholds, htimes, (series_increasing _ hsource).1 _ hreachable t hholds⟩

end MetricScript
