import MetricScript.Proofs.Failure.Ledger
import MetricScript.Proofs.Run.Boundary

/-! # Failures of arguments are recorded in rounds

First come the failures recorded within the arguments, then those that the arguments end with, and
in a plot then the complaints about handles. Each round goes through the arguments in order, but a
failure of a later argument may well come before one of an earlier argument. -/

namespace MetricScript

open Run Trace

/-! ## What comes of arguments -/

/-- What comes of one argument of several. -/
structure Outcome where
  argument : Expr
  /-- The failures that are recorded while it is evaluated. -/
  inside : List Failure
  result : Except Failure Value

namespace Outcome

/-- The failure that the argument ends with. -/
def returned (o : Outcome) : List Failure :=
  (failureOf? o.result).toList

/-- The complaint about the argument where no handle may stand. -/
def refused (o : Outcome) : List Failure :=
  (handleFailure? o.argument.variable? o.result.toOption).toList

/-- All that the argument causes in a call or a highlight. -/
def caused (o : Outcome) : List Failure :=
  o.inside ++ o.returned

/-- All that the argument causes in a plot. -/
def causedInPlot (o : Outcome) : List Failure :=
  o.caused ++ o.refused

/-- What a plot is given of the argument. -/
def plotted (o : Outcome) : Option Value :=
  withoutHandle o.result.toOption

end Outcome

/-- What comes of arguments that are evaluated from left to right. -/
def Expr.outcomes (setting : Setting) (s : State) : List Expr → List Outcome
  | [] => []
  | e :: rest =>
    match attempt e.eval setting s with
    | (.ok result, s') =>
      ⟨e, s'.failures.drop s.failures.length, result⟩ :: Expr.outcomes setting s' rest
    | (.error _, _) => []

/-- What a plot complains of once its arguments are known. -/
def Run.plotFailures (values : List (Option Value)) : List Failure :=
  match Builtin.argument? values 0 with
  | none => []
  | some series => if series.isEmptyCollection then [.emptyPlot] else styleFailures values

/-- Two rounds through a list are one if nothing of the first round comes behind anything of the
second. -/
theorem flatMap_append_of_pairwise {α β : Type} {f g : α → List β} {l : List α}
    (h : l.Pairwise fun earlier later => g earlier = [] ∨ f later = []) :
    l.flatMap f ++ l.flatMap g = l.flatMap fun a => f a ++ g a := by
  induction l with
  | nil => rfl
  | cons a l ih =>
      obtain ⟨ha, hl⟩ := List.pairwise_cons.mp h
      have hswap : l.flatMap f ++ g a = g a ++ l.flatMap f := by
        by_cases hnone : g a = []
        · simp [hnone]
        · have hrest : l.flatMap f = [] :=
            List.flatMap_eq_nil_iff.mpr fun b hb => (ha b hb).resolve_left hnone
          simp [hrest]
      calc (a :: l).flatMap f ++ (a :: l).flatMap g
          = f a ++ (l.flatMap f ++ g a) ++ l.flatMap g := by
            simp only [List.flatMap_cons, List.append_assoc]
        _ = (f a ++ g a) ++ (l.flatMap f ++ l.flatMap g) := by
            simp only [hswap, List.append_assoc]
        _ = (a :: l).flatMap fun a => f a ++ g a := by
            rw [ih hl, List.flatMap_cons]

section Rounds

variable {setting : Setting} {s s' : State}

/-! ## One round after the other -/

theorem Run.ok_of_calm {α : Type} {Q : α → Prop} {x : Run α} (hx : Orderly setting Q x)
    (hnever : NeverFails x) (hcalm : setting.source.NeverCrashes) (s : State) :
    ∃ a s', x setting s = (.ok a, s') := by
  generalize h : x setting s = r
  cases hx.ends h with
  | value _ _ => exact ⟨_, _, rfl⟩
  | failure _ _ => exact absurd h (hnever setting s _ _)
  | crash _ _ _ hcrash => exact absurd hcrash (hcalm _ _ _)

theorem Expr.neverFails_attemptAll (arguments : List Expr) :
    NeverFails (attemptAll arguments) := by
  induction arguments with
  | nil => exact .pure []
  | cons e rest ih =>
      exact (NeverFails.attempt e.eval).bind fun result => ih.bind fun results => .pure _

/-- The first round: what is recorded within the arguments. -/
theorem Expr.attemptAll_outcomes {arguments : List Expr} {results : List (Except Failure Value)}
    (h : attemptAll arguments setting s = (.ok results, s')) :
    (outcomes setting s arguments).map Outcome.argument = arguments ∧
      (outcomes setting s arguments).map Outcome.result = results ∧
      s'.failures = s.failures ++ (outcomes setting s arguments).flatMap Outcome.inside := by
  induction arguments generalizing s results with
  | nil =>
      cases h
      exact ⟨rfl, rfl, (List.append_nil _).symm⟩
  | cons e rest ih =>
      rw [attemptAll] at h
      obtain ⟨result, t, hresult, h⟩ := bind_eq_ok_iff.mp h
      obtain ⟨others, t', hothers, h⟩ := bind_eq_ok_iff.mp h
      cases h
      obtain ⟨harguments, hresults, hfailures⟩ := ih hothers
      have hinside : t.failures = s.failures ++ t.failures.drop s.failures.length :=
        (List.prefix_iff_eq_append.mp (e.traces_eval.attempt.failures_isPrefix hresult)).symm
      simp only [outcomes, hresult]
      refine ⟨?_, ?_, ?_⟩
      · rw [List.map_cons, harguments]
      · rw [List.map_cons, hresults]
      · rw [List.flatMap_cons, ← List.append_assoc, ← hinside, hfailures]

theorem filterMap_failureOf? (l : List Outcome) :
    (l.map Outcome.result).filterMap failureOf? = l.flatMap Outcome.returned := by
  induction l with
  | nil => rfl
  | cons o l ih =>
      rw [List.map_cons, List.flatMap_cons, ← ih, Outcome.returned]
      cases h : failureOf? o.result <;> simp [h]

theorem filterMap_handleFailure? (l : List Outcome) :
    (List.zipWith (fun e => handleFailure? e.variable?) (l.map Outcome.argument)
        (l.map fun o => o.result.toOption)).filterMap id = l.flatMap Outcome.refused := by
  induction l with
  | nil => rfl
  | cons o l ih =>
      rw [List.map_cons, List.map_cons, List.zipWith_cons_cons, List.flatMap_cons, ← ih,
        Outcome.refused]
      cases h : handleFailure? o.argument.variable? o.result.toOption <;> simp

/-- The second round: what the arguments end with. -/
theorem Expr.evalArguments_outcomes (hcalm : setting.source.NeverCrashes) (arguments : List Expr)
    (s : State) :
    ∃ s', evalArguments arguments setting s =
        (.ok ((outcomes setting s arguments).map fun o => o.result.toOption), s') ∧
      s'.failures = s.failures ++ ((outcomes setting s arguments).flatMap Outcome.inside ++
        (outcomes setting s arguments).flatMap Outcome.returned) := by
  obtain ⟨results, t, hresults⟩ := ok_of_calm (orderly_attemptAll fun e _ => e.orderly_eval)
    (neverFails_attemptAll arguments) hcalm s
  obtain ⟨-, rfl, hfailures⟩ := attemptAll_outcomes hresults
  refine ⟨t.recording ((outcomes setting s arguments).flatMap Outcome.returned), ?_, ?_⟩
  · rw [evalArguments, bind_apply_ok hresults, settleResults_apply, List.map_map,
      filterMap_failureOf?]
    rfl
  · rw [State.failures_recording, hfailures, List.append_assoc]

theorem Expr.map_argument_outcomes (hcalm : setting.source.NeverCrashes) (arguments : List Expr)
    (s : State) : (outcomes setting s arguments).map Outcome.argument = arguments := by
  obtain ⟨results, t, hresults⟩ := ok_of_calm (orderly_attemptAll fun e _ => e.orderly_eval)
    (neverFails_attemptAll arguments) hcalm s
  exact (attemptAll_outcomes hresults).1

/-- The third round, in a plot: the complaints about handles. -/
theorem Expr.refuseHandles_outcomes (hcalm : setting.source.NeverCrashes) (arguments : List Expr)
    (s t : State) :
    refuseHandles arguments ((outcomes setting s arguments).map fun o => o.result.toOption)
        setting t =
      (.ok ((outcomes setting s arguments).map Outcome.plotted),
        t.recording ((outcomes setting s arguments).flatMap Outcome.refused)) := by
  have harguments := map_argument_outcomes hcalm arguments s
  generalize outcomes setting s arguments = l at harguments ⊢
  subst harguments
  rw [refuseHandles_apply, filterMap_handleFailure?, List.zipWith_map, List.zipWith_self]
  rfl

/-! ## Calls, highlights and plots -/

theorem Expr.eval_call (function : String) (arguments : List Expr) :
    (call function arguments).eval = evalArguments arguments >>= callFunction function := by
  rw [evalArguments, bind_assoc]
  rfl

theorem Run.plotValues_recorded (values : List (Option Value)) (setting : Setting) (s : State) :
    (plotValues values setting s).2.failures ++
        (recordedEnd? (plotValues values setting s).1).toList =
      s.failures ++ plotFailures values := by
  unfold plotFailures
  cases h : Builtin.argument? values 0 with
  | none => simp [plotValues_of_missing h, recordedEnd?]
  | some series =>
      cases he : series.isEmptyCollection with
      | true => simp [plotValues_of_empty h he, recordedEnd?, he]
      | false => simp [plotValues_of_drawn h he, recordedEnd?, he]

theorem Statement.failures_after_highlight (hcalm : setting.source.NeverCrashes)
    (arguments : List Expr) (s : State) :
    ((Statement.highlight arguments).after setting s).failures =
      s.failures ++ ((Expr.outcomes setting s arguments).flatMap Outcome.inside ++
        (Expr.outcomes setting s arguments).flatMap Outcome.returned) := by
  obtain ⟨t, ht, hfailures⟩ := Expr.evalArguments_outcomes hcalm arguments s
  have hexec : (Statement.highlight arguments).exec setting s = (.ok (), { t with
      highlights := t.highlights ++
        [⟨(Expr.outcomes setting s arguments).map fun o => o.result.toOption⟩] }) :=
    bind_apply_ok ht
  rw [after_eq, hexec, ← hfailures]
  exact List.append_nil _

theorem Statement.failures_after_plot (hcalm : setting.source.NeverCrashes)
    {arguments : List Expr} (hnonempty : arguments ≠ []) (s : State) :
    ((Statement.plot arguments).after setting s).failures =
      s.failures ++ ((Expr.outcomes setting s arguments).flatMap Outcome.inside ++
        (Expr.outcomes setting s arguments).flatMap Outcome.returned ++
        (Expr.outcomes setting s arguments).flatMap Outcome.refused) ++
      plotFailures ((Expr.outcomes setting s arguments).map Outcome.plotted) := by
  obtain ⟨t, ht, hfailures⟩ := Expr.evalArguments_outcomes hcalm arguments s
  have hexec : (Statement.plot arguments).exec setting s =
      plotValues ((Expr.outcomes setting s arguments).map Outcome.plotted) setting
        (t.recording ((Expr.outcomes setting s arguments).flatMap Outcome.refused)) := by
    rw [Statement.exec, plotArguments_of_ne_nil hnonempty, bind_apply_ok ht]
    exact bind_apply_ok (Expr.refuseHandles_outcomes hcalm arguments s t)
  rw [after_eq, hexec, State.failures_recording, plotValues_recorded, State.failures_recording,
    hfailures]
  simp only [List.append_assoc]

end Rounds

/-- If the source does not crash, the failures of the arguments of a call, a highlight or a plot are
recorded in rounds: those recorded within the arguments, then those that the arguments end with,
then in a plot the complaints about handles, and the plot's own. Each argument has all it causes in
one place if nothing is recorded within an argument that stands behind a failed one and, in a plot,
a refused handle has nothing but refused handles behind it. -/
theorem Expr.arguments_recorded_in_rounds (arguments : List Expr) (setting : Setting) (s : State)
    (hcalm : setting.source.NeverCrashes) :
    let outcomes := Expr.outcomes setting s arguments
    let inside := outcomes.flatMap Outcome.inside
    let returned := outcomes.flatMap Outcome.returned
    let refused := outcomes.flatMap Outcome.refused
    outcomes.map Outcome.argument = arguments ∧
    (∀ function, ((Expr.call function arguments).eval setting s).2.failures =
      s.failures ++ (inside ++ returned)) ∧
    ((Statement.highlight arguments).after setting s).failures =
      s.failures ++ (inside ++ returned) ∧
    (arguments ≠ [] → ((Statement.plot arguments).after setting s).failures =
      s.failures ++ (inside ++ returned ++ refused) ++
        plotFailures (outcomes.map Outcome.plotted)) ∧
    ((outcomes.Pairwise fun earlier later => earlier.returned = [] ∨ later.inside = []) →
      inside ++ returned = outcomes.flatMap Outcome.caused ∧
      ((outcomes.Pairwise fun earlier later => earlier.refused = [] ∨ later.caused = []) →
        inside ++ returned ++ refused = outcomes.flatMap Outcome.causedInPlot)) := by
  intro outcomes inside returned refused
  refine ⟨map_argument_outcomes hcalm arguments s, fun function => ?_,
    Statement.failures_after_highlight hcalm arguments s,
    fun hnonempty => Statement.failures_after_plot hcalm hnonempty s, fun hreturned => ?_⟩
  · obtain ⟨t, ht, hfailures⟩ := evalArguments_outcomes hcalm arguments s
    rw [eval_call, bind_apply_ok ht, callFunction_apply]
    exact hfailures
  · have hcaused : inside ++ returned = outcomes.flatMap Outcome.caused :=
      flatMap_append_of_pairwise hreturned
    refine ⟨hcaused, fun hrefused => ?_⟩
    rw [hcaused]
    exact flatMap_append_of_pairwise hrefused

/-- A setting with a source that has nothing but empty series, in which arguments are evaluated one
after the other. -/
def Setting.oneByOne : Setting where
  source := .ofData []
  config := { concurrentArguments := false }

/-- A handle, a name without a value, and an array of another one. -/
def Expr.unfit : List Expr :=
  [.call "protocol" [.literal (.string "x")], .variable "u", .array [.variable "v"]]

theorem Expr.arguments_recorded_in_rounds_unfit :
    Setting.oneByOne.source.NeverCrashes ∧ unfit ≠ [] ∧
    ((Statement.highlight unfit).after .oneByOne {}).failures =
      [.undefinedVariable "v", .undefinedVariable "u"] ∧
    ((Statement.plot unfit).after .oneByOne {}).failures =
      [.undefinedVariable "v", .undefinedVariable "u", .handleAsValue none ⟨.protocol, "x"⟩] := by
  have hcalm : Setting.oneByOne.source.NeverCrashes := Source.neverCrashes_ofData []
  have hnonempty : unfit ≠ [] := List.cons_ne_nil _ _
  have hinside : (outcomes .oneByOne {} unfit).flatMap Outcome.inside =
      [.undefinedVariable "v"] := by with_unfolding_all rfl
  have hreturned : (outcomes .oneByOne {} unfit).flatMap Outcome.returned =
      [.undefinedVariable "u"] := by with_unfolding_all rfl
  have hrefused : (outcomes .oneByOne {} unfit).flatMap Outcome.refused =
      [.handleAsValue none ⟨.protocol, "x"⟩] := by with_unfolding_all rfl
  have hown : plotFailures ((outcomes .oneByOne {} unfit).map Outcome.plotted) = [] := by
    with_unfolding_all rfl
  obtain ⟨-, -, hhighlight, hplot, -⟩ := arguments_recorded_in_rounds unfit .oneByOne {} hcalm
  have hplot := hplot hnonempty
  rw [hinside, hreturned] at hhighlight
  rw [hinside, hreturned, hrefused, hown] at hplot
  exact ⟨hcalm, hnonempty, hhighlight, hplot⟩

/-- The failures are those of the first cause, then those of the second one and so on, where the
failures of one cause come in any order. -/
inductive InTurn : List (List Failure) → List Failure → Prop where
  | nil : InTurn [] []
  | cons {cause block rest : List Failure} {causes : List (List Failure)}
    (hblock : block.Perm cause) (hrest : InTurn causes rest) :
    InTurn (cause :: causes) (block ++ rest)

/-- Even one by one the arguments do not come in turn: what is recorded within a later argument may
stand before the failure that an earlier one ends with. -/
theorem Expr.arguments_not_recorded_in_turn :
    ¬ ∀ setting : Setting, setting.config.concurrentArguments = false →
      setting.source.NeverCrashes → ∀ (arguments : List Expr) (s : State),
        ∃ added, ((Statement.highlight arguments).after setting s).failures = s.failures ++ added ∧
          InTurn ((outcomes setting s arguments).map Outcome.caused) added := by
  intro h
  obtain ⟨added, hrecorded, hturn⟩ := h .oneByOne rfl (Source.neverCrashes_ofData [])
    [.variable "u", .array [.variable "v"]] {}
  have hcaused : (outcomes .oneByOne {} [.variable "u", .array [.variable "v"]]).map
      Outcome.caused = [[.undefinedVariable "u"], [.undefinedVariable "v"]] := by
    with_unfolding_all rfl
  have hfailures : ((Statement.highlight [.variable "u", .array [.variable "v"]]).after
      .oneByOne {}).failures = [.undefinedVariable "v", .undefinedVariable "u"] := by
    with_unfolding_all rfl
  rw [hcaused] at hturn
  rw [hfailures] at hrecorded
  cases hturn with
  | cons hfirst hturn =>
      cases hturn with
      | cons hsecond hturn =>
          cases hturn
          rw [List.perm_singleton.mp hfirst, List.perm_singleton.mp hsecond] at hrecorded
          simp at hrecorded

end MetricScript
