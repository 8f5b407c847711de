import MetricScript.Proofs.Cache.Provenance
import MetricScript.Proofs.Failure.Ledger
import MetricScript.Proofs.Failure.Orderly
import MetricScript.Proofs.Run.Boundary
import MetricScript.Proofs.Series.Position

/-! # A run crashes only if the source does

With a source that never crashes no crash is recorded, whatever the script and the configuration.
The built-in functions have no part in a crash either: with every position that they look at checked
they give what they give without the checks. -/

namespace MetricScript

open Run

/-! ## Statements in calm -/

section Calm

variable {setting : Setting}

/-- A statement during which the source never crashes records ordinary failures only. -/
theorem Statement.calmTo_after (hcalm : setting.source.NeverCrashes) (statement : Statement)
    (s : State) : s.CalmTo (statement.after setting s) := by
  rw [after_eq]
  generalize hexec : statement.exec setting s = r
  cases statement.orderly_exec.ends hexec with
  | value h _ => exact h.trans (.recording _ (by simp [recordedEnd?]))
  | failure h hf => exact h.trans (.recording _ (by simpa [recordedEnd?] using hf))
  | crash _ _ _ hcrash => exact absurd hcrash (hcalm _ _ _)

theorem calmTo_stateAfter (hcalm : setting.source.NeverCrashes) (statements : List Statement)
    (s : State) : s.CalmTo (stateAfter setting s statements) := by
  induction statements generalizing s with
  | nil => exact .refl s
  | cons statement rest ih => exact (statement.calmTo_after hcalm s).trans (ih _)

/-- A run with a source that never crashes records ordinary failures only. -/
theorem Script.ordinary_failures (hcalm : setting.source.NeverCrashes) (script : Script) :
    ∀ f ∈ (script.exec.finalState setting).failures, f.IsOrdinary := by
  have hend : script.exec.finalState setting = stateAfter setting {} script.statements := by
    rw [finalState, Script.exec, execAll_apply]
  obtain ⟨recorded, hrecorded, hordinary⟩ :=
    (calmTo_stateAfter hcalm script.statements {}).failures
  rw [hend, hrecorded]
  simpa using hordinary

end Calm

/-! ## Built-in functions with checks -/

namespace Builtin

/-- An average whose positions are checked; a check that fails leaves nothing. -/
def averageChecked (b : Builtin) (transform : Nat → Series → Option Series)
    (arguments : List (Option Value)) (defaultWindow : Nat) : Option (Except Failure Value) :=
  match (argument? arguments 0).bind Value.series? with
  | none => some (.error (.seriesExpected b))
  | some s =>
    match b.windowOf arguments defaultWindow with
    | .ok n => (transform n s).map fun t => .ok (.series t)
    | .error f => some (.error f)

/-- A transform whose positions are checked; a check that fails leaves nothing. -/
def transformOnlyChecked (b : Builtin) (transform : Series → Option Series)
    (arguments : List (Option Value)) : Option (Except Failure Value) :=
  match onlySeries? arguments with
  | some s => (transform s).map fun t => .ok (.series t)
  | none => some (.error (.seriesExpected b))

/-- The value of a call, all positions checked. The other functions take no value from a position
that has to be there. -/
def applyChecked (b : Builtin) (arguments : List (Option Value)) (defaultWindow : Nat)
    (now : Timestamp) : Option (Except Failure Value) :=
  match b with
  | .ma => b.averageChecked Series.movingAverage? arguments defaultWindow
  | .diff =>
    b.transformOnlyChecked (Series.stepwise? fun previous current => current - previous) arguments
  | .pctChange => b.transformOnlyChecked (Series.stepwise? Series.percentStep) arguments
  | b => some (b.apply arguments defaultWindow now)

theorem averageChecked_eq {transform? : Nat → Series → Option Series}
    {transform : Nat → Series → Series} (h : ∀ n s, transform? n s = some (transform n s))
    (b : Builtin) (arguments : List (Option Value)) (defaultWindow : Nat) :
    b.averageChecked transform? arguments defaultWindow =
      some (b.average transform arguments defaultWindow) := by
  unfold averageChecked average
  cases (argument? arguments 0).bind Value.series? with
  | none => rfl
  | some s =>
      cases b.windowOf arguments defaultWindow with
      | ok n => exact congrArg (Option.map fun t => Except.ok (Value.series t)) (h n s)
      | error f => rfl

theorem transformOnlyChecked_eq {transform? : Series → Option Series} {transform : Series → Series}
    (h : ∀ s, transform? s = some (transform s)) (b : Builtin)
    (arguments : List (Option Value)) :
    b.transformOnlyChecked transform? arguments = some (b.transformOnly transform arguments) := by
  unfold transformOnlyChecked transformOnly
  cases onlySeries? arguments with
  | none => rfl
  | some s => exact congrArg (Option.map fun t => Except.ok (Value.series t)) (h s)

/-- No check fails in a call of a built-in function. -/
theorem applyChecked_eq (b : Builtin) (arguments : List (Option Value)) (defaultWindow : Nat)
    (now : Timestamp) :
    b.applyChecked arguments defaultWindow now = some (b.apply arguments defaultWindow now) := by
  cases b with
  | ma => exact averageChecked_eq Series.movingAverage?_eq _ arguments defaultWindow
  | diff => exact transformOnlyChecked_eq (Series.stepwise?_eq _) _ arguments
  | pctChange => exact transformOnlyChecked_eq (Series.stepwise?_eq _) _ arguments
  | _ => rfl

end Builtin

/-- A call of a function with its arguments that crashes if a position is not there. -/
def Run.callChecked (function : String) (arguments : List (Option Value)) : Run Value := do
  match (Named.ofFoldedName? function : Option EntityKind) with
  | some kind => ofExcept (kind.construct arguments)
  | none =>
    match (Named.ofFoldedName? function : Option Builtin) with
    | some b =>
      let setting ← setting
      match b.applyChecked arguments setting.config.defaultWindow setting.now with
      | some result => ofExcept result
      | none => crash (some "index out of bounds")
    | none => fail (.unknownFunction function)

theorem Run.callChecked_eq (function : String) (arguments : List (Option Value)) :
    callChecked function arguments = callFunction function arguments := by
  unfold callChecked callFunction
  cases (Named.ofFoldedName? function : Option EntityKind) with
  | some kind => rfl
  | none =>
      cases (Named.ofFoldedName? function : Option Builtin) with
      | some b => simp only [Builtin.applyChecked_eq]
      | none => rfl

/-- With a source that never crashes a run records no crash, whatever the script, the default window
and the other settings. Every position that a built-in function looks at is there: checking them
changes no call, and in particular no moving average, whatever the window and the series. -/
theorem Script.no_crash_of_calm (script : Script) (setting : Setting)
    (hcalm : setting.source.NeverCrashes) :
    (∀ d ∈ (script.interpret setting).diagnostics, d.kind ≠ .interpreterError) ∧
      (∀ function arguments,
        callChecked function arguments = callFunction function arguments) ∧
      ∀ (window : Nat) (s : Series), s.movingAverage? window = some (s.movingAverage window) := by
  refine ⟨fun d hd => ?_, callChecked_eq, Series.movingAverage?_eq⟩
  obtain ⟨f, hf, rfl⟩ := List.mem_map.mp hd
  exact (script.ordinary_failures hcalm f hf).kind_ne

/-- A setting with a default window into which nothing fits. -/
def Setting.withoutWindow : Setting where
  source := .ofData [(⟨.protocolTvl, "x"⟩, .single 1 none)]
  config := { defaultWindow := 0 }

/-- A script that averages over the default window, over a window wider than any series, and over no
series at all; the difference is that of an empty series. -/
def Script.averaging : Script where
  statements :=
    [.highlight [.call "ma" [.reading .protocol "x" "tvl"],
        .call "diff" [.reading .protocol "y" "tvl"]],
      .assignment "n" (some (.call "ma" [.literal (.string "x")])),
      .plot [.call "ma" [.reading .protocol "x" "tvl", .literal (.number 1e300)]]]

theorem Script.no_crash_of_calm_averaging :
    Setting.withoutWindow.source.NeverCrashes ∧
    (∀ d ∈ (Script.averaging.interpret .withoutWindow).diagnostics,
      d.kind ≠ .interpreterError) ∧
    (Script.averaging.interpret .withoutWindow).highlights.length = 1 := by
  have hcalm : Setting.withoutWindow.source.NeverCrashes := Source.neverCrashes_ofData _
  exact ⟨hcalm, (no_crash_of_calm .averaging .withoutWindow hcalm).1, by decide +kernel⟩

end MetricScript
