import MetricScript.Proofs.Failure.Orderly
import MetricScript.Proofs.Failure.Waiting
import MetricScript.Proofs.Run.Chain

/-! # Every failure is recorded exactly once

A failure that was raised and is not yet recorded is owed. Each computation starts from what is owed
and leaves what it owes to whoever goes on: nothing is lost on the way, and nothing is paid twice. A
crash leaves what is waiting then. -/

namespace MetricScript

open Run Trace

/-- The source never crashes. -/
def Source.NeverCrashes (source : Source) : Prop :=
  ∀ earlier call message, source earlier call ≠ .crash message

theorem Statement.exec_not_crashed {setting : Setting} (hcalm : setting.source.NeverCrashes)
    (statement : Statement) (s : State) {message : Option String} {s' : State} :
    statement.exec setting s ≠ (.error (.crashed message), s') := by
  intro h
  cases statement.orderly_exec.ends h with
  | crash _ _ _ hcrash => exact hcalm _ _ _ hcrash

/-! ## Debts -/

/-- The failures left by a computation: its own failure, what its value still owes, or what waits
when it crashes. -/
inductive Leaves {α : Type} (owing : α → List Failure) (waiting : List Failure) :
    Except Stop α → List Failure → Prop where
  | value (a : α) : Leaves owing waiting (.ok a) (owing a)
  | failure (f : Failure) : Leaves owing waiting (.error (.failed f)) [f]
  | crash (message : Option String) : Leaves owing waiting (.error (.crashed message)) waiting

/-- What is owed and what a computation raises from a state is what it records and leaves. -/
def Balances {α : Type} (setting : Setting) (owed : List Failure) (owing : α → List Failure)
    (w : Waiting) (t : Trace) (x : Run α) (s : State) : Prop :=
  ∃ added left, (x setting s).2.failures = s.failures ++ added ∧
    Leaves owing (w setting s) (x setting s).1 left ∧
      (added ++ left).Perm (owed ++ raised setting s (t setting s))

/-- The failures of a computation balance wherever it starts. -/
def Accounts {α : Type} (setting : Setting) (owed : List Failure) (owing : α → List Failure)
    (w : Waiting) (t : Trace) (x : Run α) : Prop :=
  ∀ s, Balances setting owed owing w t x s

/-- The value owes nothing. -/
def nothing {α : Type} : α → List Failure := fun _ => []

namespace Accounts

variable {α β : Type} {setting : Setting} {owed : List Failure} {owing : α → List Failure}
  {w : Waiting} {t : Trace} {x : Run α}

/-- A computation has a value, fails or crashes, and accounts for its failures in each case. -/
theorem cases (hx : Accounts setting owed owing w t x) (s : State) :
    (∃ a s' added, x setting s = (.ok a, s') ∧ s'.failures = s.failures ++ added ∧
      (added ++ owing a).Perm (owed ++ raised setting s (t setting s))) ∨
    (∃ f s' added, x setting s = (.error (.failed f), s') ∧ s'.failures = s.failures ++ added ∧
      (added ++ [f]).Perm (owed ++ raised setting s (t setting s))) ∨
    ∃ message s' added, x setting s = (.error (.crashed message), s') ∧
      s'.failures = s.failures ++ added ∧
        (added ++ w setting s).Perm (owed ++ raised setting s (t setting s)) := by
  rcases hx s with ⟨added, left, hadded, hleft, hperm⟩
  rcases h : x setting s with ⟨r, s'⟩
  rw [h] at hadded hleft
  cases hleft with
  | value a => exact Or.inl ⟨a, s', added, rfl, hadded, hperm⟩
  | failure f => exact Or.inr (Or.inl ⟨f, s', added, rfl, hadded, hperm⟩)
  | crash message => exact Or.inr (Or.inr ⟨message, s', added, rfl, hadded, hperm⟩)

theorem of_ok {s s' : State} {a : α} {added : List Failure} (h : x setting s = (.ok a, s'))
    (hadded : s'.failures = s.failures ++ added)
    (hperm : (added ++ owing a).Perm (owed ++ raised setting s (t setting s))) :
    Balances setting owed owing w t x s := by
  refine ⟨added, owing a, by rw [h, hadded], ?_, hperm⟩
  rw [h]
  exact .value a

theorem of_failed {s s' : State} {f : Failure} {added : List Failure}
    (h : x setting s = (.error (.failed f), s')) (hadded : s'.failures = s.failures ++ added)
    (hperm : (added ++ [f]).Perm (owed ++ raised setting s (t setting s))) :
    Balances setting owed owing w t x s := by
  refine ⟨added, [f], by rw [h, hadded], ?_, hperm⟩
  rw [h]
  exact .failure f

theorem of_crashed {s s' : State} {message : Option String} {added : List Failure}
    (h : x setting s = (.error (.crashed message), s'))
    (hadded : s'.failures = s.failures ++ added)
    (hperm : (added ++ w setting s).Perm (owed ++ raised setting s (t setting s))) :
    Balances setting owed owing w t x s := by
  refine ⟨added, w setting s, by rw [h, hadded], ?_, hperm⟩
  rw [h]
  exact .crash message

theorem pure {a : α} (h : (owing a).Perm owed) :
    Accounts setting owed owing w (row []) (pure a : Run α) := by
  intro s
  refine of_ok (pure_apply a setting s) (List.append_nil _).symm ?_
  simpa [row] using h

/-- Two computations in sequence: the debt of the first is taken over by the second. -/
theorem andThen {left : β → List Failure} {later : α → Waiting} {next : α → Trace}
    {f : α → Run β} (hx : Accounts setting owed owing w t x) (ht : Traces t x)
    (hf : ∀ a, Accounts setting (owing a) left (later a) (next a) (f a)) :
    Accounts setting owed left (w.andThen x later) (t.andThen x next) (x >>= f) := by
  intro s
  rcases hx.cases s with ⟨a, s', added, h, hadded, hperm⟩ | ⟨f, s', added, h, hadded, hperm⟩ |
    ⟨message, s', added, h, hadded, hperm⟩
  · rcases hf a s' with ⟨more, debt, hmore, hdebt, hperm'⟩
    have hstate : replay setting s (t setting s) = s' := by rw [ht setting s, h]
    refine ⟨added ++ more, debt, ?_, ?_, ?_⟩
    · rw [bind_apply_ok h, hmore, hadded, List.append_assoc]
    · rw [bind_apply_ok h, Waiting.andThen_of_ok h]
      exact hdebt
    · simp only [Trace.andThen, h]
      rw [raised_append, hstate, List.append_assoc, ← List.append_assoc owed]
      refine (hperm'.append_left added).trans ?_
      simpa only [List.append_assoc] using hperm.append_right _
  · refine of_failed (bind_apply_error h) hadded ?_
    simpa only [Trace.andThen, h, List.append_nil] using hperm
  · refine of_crashed (bind_apply_error h) hadded ?_
    simpa only [Waiting.andThen, Trace.andThen, h, List.append_nil] using hperm

/-- Two computations in sequence within which nothing waits. -/
theorem andThen_empty {left : β → List Failure} {next : α → Trace} {f : α → Run β}
    (hx : Accounts setting owed owing .empty t x) (ht : Traces t x)
    (hf : ∀ a, Accounts setting (owing a) left .empty (next a) (f a)) :
    Accounts setting owed left .empty (t.andThen x next) (x >>= f) :=
  Waiting.empty_andThen_empty x ▸ hx.andThen ht hf

/-- What follows without touching the state raises and records nothing. -/
theorem bind_still {left : β → List Failure} {f : α → Run β}
    (hx : Accounts setting owed owing w t x)
    (hf : ∀ s a s', x setting s = (.ok a, s') →
      ∃ b, f a setting s' = (.ok b, s') ∧ (left b).Perm (owing a)) :
    Accounts setting owed left w t (x >>= f) := by
  intro s
  rcases hx.cases s with ⟨a, s', added, h, hadded, hperm⟩ | ⟨f, s', added, h, hadded, hperm⟩ |
    ⟨message, s', added, h, hadded, hperm⟩
  · rcases hf s a s' h with ⟨b, hb, hleft⟩
    exact of_ok ((bind_apply_ok h).trans hb) hadded ((hleft.append_left added).trans hperm)
  · exact of_failed (bind_apply_error h) hadded hperm
  · exact of_crashed (bind_apply_error h) hadded hperm

/-- A failure turned into a result is owed by the result, on top of what was owed before. -/
theorem attempt (hx : Accounts setting [] nothing w t x) (owed : List Failure) :
    Accounts setting owed (fun r => owed ++ (failureOf? r).toList) (w.behind owed) t
      (attempt x) := by
  intro s
  rcases hx.cases s with ⟨a, s', added, h, hadded, hperm⟩ | ⟨f, s', added, h, hadded, hperm⟩ |
    ⟨message, s', added, h, hadded, hperm⟩
  · refine of_ok (attempt_of_ok h) hadded ?_
    simp only [nothing, List.append_nil, List.nil_append] at hperm
    simpa [failureOf?] using (List.perm_append_comm.trans (hperm.append_left owed))
  · refine of_ok (attempt_of_failed h) hadded ?_
    have hmove : (added ++ (owed ++ [f])).Perm (owed ++ (added ++ [f])) :=
      List.perm_append_comm_assoc added owed [f]
    exact hmove.trans (hperm.append_left owed)
  · refine of_crashed (attempt_of_crashed h) hadded ?_
    have hmove : (added ++ w.behind owed setting s).Perm (owed ++ (added ++ w setting s)) :=
      List.perm_append_comm_assoc added owed _
    exact hmove.trans (hperm.append_left owed)

/-- A failure that is settled is recorded, and nothing is owed any more. -/
theorem settling (hx : Accounts setting [] nothing w t x) :
    Accounts setting [] nothing w (t.settling x) (settle x) := by
  intro s
  rcases hx.cases s with ⟨a, s', added, h, hadded, hperm⟩ | ⟨f, s', added, h, hadded, hperm⟩ |
    ⟨message, s', added, h, hadded, hperm⟩
  · refine of_ok (settle_of_ok h) hadded ?_
    simpa only [Trace.settling, h, List.append_nil, nothing] using hperm
  · have hrecorded : (s'.recording [f]).failures = s.failures ++ (added ++ [f]) := by
      rw [State.failures_recording, hadded, List.append_assoc]
    refine of_ok (settle_of_failed h) hrecorded ?_
    simp only [Trace.settling, h, raised_append, raised_singleton, Step.failure?]
    simpa [nothing] using hperm
  · refine of_crashed (settle_of_crashed h) hadded ?_
    simpa only [Trace.settling, h, List.append_nil] using hperm

/-- A computation that does not crash is contained without a loss. -/
theorem containing {x : Run Unit} (hx : Accounts setting [] nothing w t x)
    (hcalm : ∀ s message s', x setting s ≠ (.error (.crashed message), s')) :
    Accounts setting [] nothing .empty (t.containing x) (contain x) := by
  intro s
  rcases hx.cases s with ⟨a, s', added, h, hadded, hperm⟩ | ⟨f, s', added, h, hadded, hperm⟩ |
    ⟨message, s', -, h, -, -⟩
  · have hend : contain x setting s = (.ok (), s') := by simp only [contain, h]
    refine of_ok hend hadded ?_
    simpa only [Trace.containing, h, List.append_nil] using hperm
  · have hend : contain x setting s = (.ok (), s'.recording [f]) := by
      simp only [contain, h]
      rfl
    have hrecorded : (s'.recording [f]).failures = s.failures ++ (added ++ [f]) := by
      rw [State.failures_recording, hadded, List.append_assoc]
    refine of_ok hend hrecorded ?_
    simp only [Trace.containing, h, raised_append, raised_singleton, Step.failure?]
    simpa [nothing] using hperm
  · exact absurd h (hcalm s message s')

/-! ## Elementary computations -/

/-- A computation of one step that records nothing ends with the failure that the step raises. -/
theorem raising {step : Step} (hfailures : ∀ s, (x setting s).2.failures = s.failures)
    (hleaves : ∀ s, Leaves nothing [] (x setting s).1 (step.failure? setting s).toList) :
    Accounts setting [] nothing .empty (row [step]) x := by
  intro s
  refine ⟨[], _, by rw [hfailures, List.append_nil], hleaves s, ?_⟩
  rw [row, raised_singleton]

/-- A failure raised and not recorded. -/
theorem fail {step : Step} {f : Failure} (h : ∀ s, step.failure? setting s = some f) :
    Accounts setting [] nothing .empty (row [step]) (fail f : Run α) :=
  raising (fun _ => rfl) fun s => by
    rw [h s]
    exact .failure f

/-- A change of the state that records nothing. -/
theorem change {step : Step} {f : State → State} (hf : ∀ s, (f s).failures = s.failures)
    (h : ∀ s, step.failure? setting s = none) :
    Accounts setting [] nothing .empty (row [step]) (change f) :=
  raising hf fun s => by
    rw [h s]
    exact .value ()

theorem nameValue (name : String) :
    Accounts setting [] nothing .empty (row [.read name]) (nameValue name) := by
  refine raising (fun s => by rw [nameValue_apply]) fun s => ?_
  rw [nameValue_apply]
  simp only [Step.failure?]
  by_cases hnull : name = "null"
  · simp only [hnull, true_or, if_true]
    exact .value _
  · cases h : s.bindings.find? name with
    | some v =>
        simp only [hnull, Option.isSome_some, or_true, if_true, if_false]
        exact .value _
    | none =>
        simp only [hnull, Option.isSome_none, Bool.false_eq_true, or_false, if_false]
        exact .failure _

theorem leaves_mapError (r : Except Failure α) :
    Leaves nothing [] (r.mapError Stop.failed) (failureOf? r).toList := by
  cases r with
  | ok a => exact .value a
  | error f => exact .failure f

theorem callFunction (function : String) (arguments : List (Option Value)) :
    Accounts setting [] nothing .empty (row [.call function arguments])
      (callFunction function arguments) := by
  refine raising (fun s => by rw [callFunction_apply]) fun s => ?_
  rw [callFunction_apply]
  exact leaves_mapError _

theorem plainProperty {base : Value} (h : ∀ entity, base ≠ .entity entity) (name : String) :
    Accounts setting [] nothing .empty (row [.access base name]) (property base name) := by
  refine raising (fun s => by rw [property_of_plain h]) fun s => ?_
  rw [property_of_plain h]
  have hfailure : (Step.access base name).failure? setting s =
      failureOf? (Run.plainProperty base name) := by
    cases base with
    | entity entity => exact absurd rfl (h entity)
    | _ => rfl
  rw [hfailure]
  exact leaves_mapError _

/-- A property of a handle fails only if there is no such metric or the source has an error. -/
theorem entityProperty (entity : Entity) (name : String) :
    Accounts setting [] nothing .empty (row [.access (.entity entity) name])
      (property (.entity entity) name) := by
  have hends : ∀ s, (Run.entityProperty entity name setting s).2.failures = s.failures ∧
      Leaves nothing [] (Run.entityProperty entity name setting s).1
        (Step.accessFailure? setting s (.entity entity) name).toList := by
    intro s
    simp only [Step.accessFailure?]
    cases he : entity.kind.endpoint? name with
    | none =>
        rw [entityProperty_of_unmapped he]
        exact ⟨rfl, .failure _⟩
    | some endpoint =>
        cases hk : s.kept? setting (cacheKey entity.id name) with
        | some series =>
            rw [entityProperty_of_kept he hk]
            exact ⟨rfl, .value _⟩
        | none =>
            rw [entityProperty_of_missing he hk]
            cases hanswer : (s.fetch setting entity name endpoint).answer with
            | series series =>
                simp only [hanswer]
                refine ⟨?_, .value _⟩
                simp only [State.keeping]
                split <;> rfl
            | error e =>
                simp only [hanswer]
                exact ⟨rfl, .failure _⟩
            | crash message =>
                simp only [hanswer]
                exact ⟨rfl, .crash message⟩
  exact raising (fun s => (hends s).1) fun s => (hends s).2

theorem property (base : Value) (name : String) :
    Accounts setting [] nothing .empty (row [.access base name]) (property base name) := by
  cases base with
  | entity entity => exact entityProperty entity name
  | scalar x => exact plainProperty (by simp) name
  | series t => exact plainProperty (by simp) name
  | list items => exact plainProperty (by simp) name

theorem properties (base : Value) (names : List String) :
    Accounts setting [] nothing .empty (propertiesTrace base names) (properties base names) := by
  induction names generalizing base with
  | nil => exact pure (List.Perm.refl _)
  | cons name rest ih =>
      exact (property base name).andThen_empty (Traces.property base name) ih

theorem refuseHandles (arguments : List Expr) (values : List (Option Value)) :
    Accounts setting [] nothing .empty
      (row (List.zipWith (fun e => .check e.variable?) arguments values))
      (refuseHandles arguments values) := by
  intro s
  refine of_ok (refuseHandles_apply arguments values setting s) rfl ?_
  simp only [nothing, List.append_nil, List.nil_append, row]
  induction arguments generalizing values s with
  | nil => simp
  | cons e arguments ih =>
      cases values with
      | nil => simp
      | cons value values =>
          have hrest := ih values ((Step.check e.variable? value).apply setting s)
          rw [List.zipWith_cons_cons, List.zipWith_cons_cons, raised]
          cases h : handleFailure? e.variable? value <;>
            simpa [Step.failure?, h, List.filterMap_cons] using hrest

theorem refuseHandle (name : Option String) (value : Option Value) :
    Accounts setting [] nothing .empty (row [.check name value]) (refuseHandle name value) := by
  intro s
  refine of_ok (refuseHandle_apply name value setting s) rfl ?_
  simp [nothing, row, raised_singleton, Step.failure?]

/-- Settling results pays exactly what they owe. -/
theorem settleResults (results : List (Except Failure Value)) :
    Accounts setting (results.filterMap failureOf?) nothing .empty (row (settledSteps results))
      (settleResults results) := by
  intro s
  refine of_ok (settleResults_apply results setting s) rfl ?_
  have hraised : ∀ (failures : List Failure) (s : State),
      raised setting s (failures.map .record) = [] := by
    intro failures
    induction failures with
    | nil => exact fun _ => rfl
    | cons f rest ih => exact fun s => by simp [raised, Step.failure?, ih]
  simp [nothing, row, settledSteps, hraised]

theorem raised_styleSteps (values : List (Option Value)) (s : State) :
    raised setting s (styleSteps values) = styleFailures values := by
  simp only [styleSteps, styleFailures, raised_append]
  cases (Builtin.argument? values 2).bind Value.string? <;>
    cases (Builtin.argument? values 3).bind Value.string? <;> simp [raised, Step.failure?]

theorem plotValues (values : List (Option Value)) :
    Accounts setting [] nothing .empty (row (plotSteps values)) (plotValues values) := by
  intro s
  unfold plotSteps
  cases h : Builtin.argument? values 0 with
  | none =>
      refine of_ok (plotValues_of_missing h setting s) (List.append_nil _).symm ?_
      simp [nothing, row]
  | some series =>
      cases he : series.isEmptyCollection with
      | true =>
          refine of_failed (plotValues_of_empty h he setting s) (List.append_nil _).symm ?_
          simp only [he, if_true, row, raised_singleton]
          exact List.Perm.refl _
      | false =>
          refine of_ok (plotValues_of_drawn h he setting s) rfl ?_
          simp only [he, Bool.false_eq_true, if_false, row, raised_append, raised_styleSteps,
            raised_singleton, Step.failure?, nothing]
          simp

end Accounts

/-! ## Expressions -/

section Expressions

variable {setting : Setting}

theorem Expr.accounts_evalItems {items : List Expr}
    (h : ∀ e ∈ items, Accounts setting [] nothing e.waiting e.trace e.eval) :
    Accounts setting [] nothing (Expr.itemsWaiting items) (Expr.itemsTrace items)
      (Expr.evalItems items) := by
  induction items with
  | nil => exact Accounts.pure (List.Perm.refl _)
  | cons e rest ih =>
      rcases List.forall_mem_cons.mp h with ⟨he, hrest⟩
      exact he.settling.andThen e.traces_eval.settling fun value =>
        (ih hrest).bind_still fun s values s' _ => ⟨_, rfl, List.Perm.refl _⟩

theorem Expr.accounts_attemptAll {arguments : List Expr}
    (h : ∀ e ∈ arguments, Accounts setting [] nothing e.waiting e.trace e.eval)
    (owed : List Failure) :
    Accounts setting owed (fun results => owed ++ results.filterMap failureOf?)
      ((Expr.attemptsWaiting arguments).behind owed) (Expr.attemptsTrace arguments)
      (Expr.attemptAll arguments) := by
  induction arguments generalizing owed with
  | nil => exact Accounts.pure (by simp)
  | cons e rest ih =>
      rcases List.forall_mem_cons.mp h with ⟨he, hrest⟩
      rw [Expr.attemptsWaiting, ← Waiting.behind_andThen]
      refine (he.attempt owed).andThen e.traces_eval.attempt fun result => ?_
      rw [Waiting.behind_behind]
      refine (ih hrest _).bind_still fun s results s' _ => ⟨_, rfl, ?_⟩
      cases result <;> simp [failureOf?, List.filterMap_cons]

theorem Expr.accounts_evalLinks {rest : List (Operator × Expr)}
    (h : ∀ link ∈ rest, Accounts setting [] nothing link.2.waiting link.2.trace link.2.eval)
    (left : Option Value) :
    Accounts setting [] nothing (Expr.linksWaiting rest) (Expr.linksTrace rest)
      (Expr.evalLinks left rest) := by
  induction rest generalizing left with
  | nil => exact Accounts.pure (List.Perm.refl _)
  | cons link rest ih =>
      rcases link with ⟨op, e⟩
      rcases List.forall_mem_cons.mp h with ⟨he, hrest⟩
      refine he.settling.andThen e.traces_eval.settling fun value => ?_
      refine (Accounts.refuseHandle _ value).andThen (Traces.refuseHandle _ value) fun right => ?_
      intro s
      exact ih hrest _ s

/-- The failures raised within an expression are recorded, but for the one that it ends with, and
for those that are waiting when it crashes. -/
theorem Expr.accounts_eval (e : Expr) :
    Accounts setting [] nothing e.waiting e.trace e.eval := by
  induction e using Expr.induct with
  | literal l => exact Accounts.pure (List.Perm.refl _)
  | name name => exact Accounts.nameValue name
  | array items ih =>
      exact (Expr.accounts_evalItems ih).bind_still fun s values s' _ =>
        ⟨_, rfl, List.Perm.refl _⟩
  | call function arguments ih =>
      refine (Expr.accounts_attemptAll ih []).andThen
        (Expr.traces_attemptAll fun e _ => e.traces_eval) fun results => ?_
      exact (Accounts.settleResults results).andThen_empty (Traces.settleResults results)
        fun values => Accounts.callFunction function values
  | member base names ih =>
      exact ih.andThen base.traces_eval fun value => Accounts.properties value names
  | chain first rest hfirst hrest =>
      by_cases hempty : rest.isEmpty = true
      · simpa only [Expr.waiting, Expr.trace, Expr.eval, hempty, if_true] using hfirst
      · simp only [Expr.waiting, Expr.trace, Expr.eval, hempty]
        refine hfirst.settling.andThen first.traces_eval.settling fun left => ?_
        refine (Expr.accounts_evalLinks hrest left).bind_still fun s value s' h => ?_
        obtain ⟨t, rfl⟩ := Expr.exists_series_of_evalLinks (by simpa using hempty) h
        exact ⟨_, rfl, List.Perm.refl _⟩
  | not operand ih =>
      exact ih.settling.bind_still fun s value s' _ => ⟨_, rfl, List.Perm.refl _⟩
  | unsupported => exact Accounts.fail fun _ => rfl

theorem Expr.accounts_evalArguments (arguments : List Expr) :
    Accounts setting [] nothing (Expr.argumentsWaiting arguments) (Expr.argumentsTrace arguments)
      (Expr.evalArguments arguments) :=
  (Expr.accounts_attemptAll (fun e _ => e.accounts_eval) []).andThen
    (Expr.traces_attemptAll fun e _ => e.traces_eval) Accounts.settleResults

/-! ## Statements and scripts -/

/-- The failures raised within a statement are recorded, but for its own, and for those that are
waiting when it crashes. -/
theorem Statement.accounts_exec (statement : Statement) :
    Accounts setting [] nothing statement.waiting statement.trace statement.exec := by
  cases statement with
  | assignment name value =>
      cases value with
      | none => exact Accounts.change (fun _ => rfl) fun _ => rfl
      | some e =>
          refine (e.accounts_eval.attempt []).andThen e.traces_eval.attempt fun result => ?_
          cases result with
          | ok v => exact Accounts.change (fun _ => rfl) fun _ => rfl
          | error f =>
              -- The failure that the expression left is passed on unchanged.
              intro s
              have hend : (unbindVariable name >>= fun _ => (fail f : Run Unit)) setting s =
                  (.error (.failed f), { s with bindings := s.bindings.erase name }) := rfl
              exact Accounts.of_failed hend (List.append_nil _).symm (List.Perm.refl _)
  | plot arguments =>
      by_cases hempty : arguments = []
      · subst hempty
        simp only [Statement.waiting, Expr.argumentsWaiting, Expr.attemptsWaiting,
          Waiting.empty_andThen_empty]
        exact Accounts.fail fun _ => rfl
      · have hnonempty : ¬ arguments.isEmpty = true := by simpa using hempty
        simp only [Statement.waiting, Statement.trace, Statement.exec, plotArguments, hnonempty]
        rw [← Expr.argumentsWaiting_andThen]
        refine (Expr.accounts_evalArguments arguments).andThen
          (Expr.traces_evalArguments arguments) fun values => ?_
        exact (Accounts.refuseHandles arguments values).andThen_empty
          (Traces.refuseHandles arguments values) Accounts.plotValues
  | highlight arguments =>
      rw [Statement.waiting, ← Expr.argumentsWaiting_andThen]
      refine (Expr.accounts_evalArguments arguments).andThen
        (Expr.traces_evalArguments arguments) fun values => ?_
      exact Accounts.change (fun _ => rfl) fun _ => rfl
  | expression e => exact Accounts.pure (List.Perm.refl _)
  | unsupported rule => exact Accounts.fail fun _ => rfl

theorem accounts_execAll (hcalm : setting.source.NeverCrashes) (statements : List Statement) :
    Accounts setting [] nothing .empty (statementsTrace statements) (execAll statements) := by
  induction statements with
  | nil => exact Accounts.pure (List.Perm.refl _)
  | cons statement rest ih =>
      have hexec : Accounts setting [] nothing .empty (statement.trace.containing statement.exec)
          (contain statement.exec) :=
        statement.accounts_exec.containing fun s _ _ => statement.exec_not_crashed hcalm s
      exact hexec.andThen_empty statement.traces_exec.containing fun _ => ih

end Expressions

/-- The failures that a script records are those that are raised while it runs, each as often as it
is raised, and so are the diagnostics. -/
theorem Script.recorded_perm_raised (script : Script) (setting : Setting) (s : State)
    (hcalm : setting.source.NeverCrashes) :
    ∃ added, (script.exec setting s).2.failures = s.failures ++ added ∧
      (script.exec setting s).2.diagnostics = s.diagnostics ++ added.map Failure.diagnostic ∧
      added.Perm (raised setting s (script.trace setting s)) := by
  rcases execAll_ok script.statements setting s with ⟨s', hend⟩
  have hbalance := accounts_execAll hcalm script.statements s
  rcases hbalance with ⟨added, left, hadded, hleft, hperm⟩
  rw [hend] at hleft
  cases hleft
  simp only [nothing, List.append_nil, List.nil_append] at hperm
  refine ⟨added, hadded, ?_, hperm⟩
  have hstate : (script.exec setting s).2.failures = s.failures ++ added := hadded
  simp only [State.diagnostics, hstate, List.map_append]

theorem Source.neverCrashes_ofData (data : List (Call × Series)) :
    (Source.ofData data).NeverCrashes := fun _ _ _ h => by cases h

/-- A script whose failures are recorded in another order than they are raised in: that of the call
waits until the array has recorded that of its item. -/
def Script.outOfOrder : Script where
  statements := [.highlight [.call "mean" [], .array [.variable "b"]]]

theorem Script.recorded_perm_raised_outOfOrder :
    (Source.ofData []).NeverCrashes ∧
    ∃ added, (Script.outOfOrder.exec { source := .ofData [] } {}).2.failures = added ∧
      (Script.outOfOrder.interpret { source := .ofData [] }).diagnostics =
        added.map Failure.diagnostic ∧
      added.map Failure.kind = [.undefinedVariable, .invalidArgument] ∧
      added.Perm (raised { source := .ofData [] } {}
        (Script.outOfOrder.trace { source := .ofData [] } {})) := by
  have hcalm := Source.neverCrashes_ofData []
  obtain ⟨added, hfailures, hdiagnostics, hperm⟩ :=
    recorded_perm_raised .outOfOrder { source := .ofData [] } {} hcalm
  have hkinds : (Script.outOfOrder.exec { source := .ofData [] } {}).2.failures.map Failure.kind =
      [.undefinedVariable, .invalidArgument] := by
    decide +kernel
  rw [hfailures] at hkinds
  exact ⟨hcalm, added, hfailures, hdiagnostics, hkinds, hperm⟩

end MetricScript
