import MetricScript.Proofs.Failure.Orderly
import MetricScript.Proofs.Run.Binding

/-! # A crash breaks off one statement

Nothing that a statement has done before the source crashes is taken back, and nothing that it has
still to do is begun: a variable is bound, a plot or highlight handed over only when no more calls
can follow. The statement after it starts from what is there. -/

namespace MetricScript

open Run Trace

section Crashes

variable {setting : Setting} {s s' : State} {message : Option String}

/-! ## Where statements crash -/

theorem Run.plotValues_not_crashed (values : List (Option Value)) :
    plotValues values setting s ≠ (.error (.crashed message), s') := by
  cases h : Builtin.argument? values 0 with
  | none => simp [plotValues_of_missing h]
  | some series =>
      cases he : series.isEmptyCollection with
      | true => simp [plotValues_of_empty h he]
      | false => simp [plotValues_of_drawn h he]

/-- If what follows does not crash then the crash came before it. -/
theorem Run.crashed_of_bind {α β : Type} {x : Run α} {f : α → Run β}
    (h : (x >>= f) setting s = (.error (.crashed message), s'))
    (hf : ∀ a t, f a setting t ≠ (.error (.crashed message), s')) :
    x setting s = (.error (.crashed message), s') := by
  rcases bind_eq_error_iff.mp h with h | ⟨a, t, -, h⟩
  · exact h
  · exact absurd h (hf a t)

/-- A plot that crashes does so among its arguments. -/
theorem Run.evalArguments_of_plot_crashed {arguments : List Expr}
    (h : plotArguments arguments setting s = (.error (.crashed message), s')) :
    Expr.evalArguments arguments setting s = (.error (.crashed message), s') := by
  unfold plotArguments at h
  split at h
  · cases h
  · refine crashed_of_bind h fun values t => ?_
    rw [bind_apply_ok (refuseHandles_apply arguments values setting t)]
    exact plotValues_not_crashed _

/-- A statement that crashes has not come to its variable, its plot or its highlight. -/
theorem Statement.frame_of_crashed {statement : Statement}
    (h : statement.exec setting s = (.error (.crashed message), s')) :
    s'.bindings = s.bindings ∧ s'.plots = s.plots ∧ s'.highlights = s.highlights := by
  cases statement with
  | assignment name value =>
      obtain ⟨e, message, t, rfl, heval⟩ := crashes_assignment_iff.mp ⟨message, s', h⟩
      cases (exec_assignment_of_crashed heval name).symm.trans h
      exact e.frame_eval heval
  | plot arguments => exact Expr.frame_evalArguments (evalArguments_of_plot_crashed h)
  | highlight arguments =>
      exact Expr.frame_evalArguments (crashed_of_bind h fun _ _ => nofun)
  | expression e => cases h
  | unsupported rule => cases h

/-! ## The call that ends a statement -/

/-- The calls to the source that a statement makes. -/
def Statement.calls (setting : Setting) (s : State) (statement : Statement) : List Fetch :=
  (statement.after setting s).fetches.drop s.fetches.length

theorem Statement.calls_eq {statement : Statement} {r : Except Stop Unit} {calls : List Fetch}
    (hexec : statement.exec setting s = (r, s')) (h : s'.fetches = s.fetches ++ calls) :
    statement.calls setting s = calls := by
  have hafter : (statement.after setting s).fetches = s.fetches ++ calls := by
    rw [after_eq, hexec]
    exact h
  rw [Statement.calls, hafter, List.drop_left]

theorem Statement.answered_of_calm {statement : Statement} {r : Except Stop Unit}
    (hexec : statement.exec setting s = (r, s')) (h : s.CalmTo s') :
    ∀ fetch ∈ statement.calls setting s, fetch.IsAnswered := by
  obtain ⟨calls, hcalls, hanswered⟩ := h.fetches
  rwa [calls_eq hexec hcalls]

/-- A call that makes the source crash is what a statement ends with. -/
theorem Statement.exec_of_crash {statement : Statement} {fetch : Fetch}
    (hfetch : fetch ∈ statement.calls setting s) (hcrash : fetch.answer = .crash message) :
    ∃ t, s.CalmTo t ∧ fetch.entity.kind.endpoint? fetch.property = some fetch.endpoint ∧
      t.kept? setting fetch.key = none ∧
      statement.exec setting s = (.error (.crashed message), t.asked fetch) := by
  generalize hexec : statement.exec setting s = r
  cases statement.orderly_exec.ends hexec with
  | value h _ => exact absurd hcrash (answered_of_calm hexec h fetch hfetch message)
  | failure h _ => exact absurd hcrash (answered_of_calm hexec h fetch hfetch message)
  | @crash other t entity name endpoint h hmapped hmissing hanswer =>
      obtain ⟨earlier, hearlier, hanswered⟩ :=
        h.fetches_asked (t.fetch setting entity name endpoint)
      rw [calls_eq hexec hearlier] at hfetch
      -- All calls but the last one were answered, so the call in question is the last one.
      rcases List.mem_append.mp hfetch with hfetch | hfetch
      · exact absurd hcrash (hanswered fetch hfetch message)
      · obtain rfl := List.mem_singleton.mp hfetch
        obtain rfl : other = message := Answer.crash.inj (hanswer.symm.trans hcrash)
        exact ⟨t, h, hmapped, hmissing, rfl⟩

/-! ## What a crash leaves behind -/

/-- Series that are kept at any time during a statement are kept after it. -/
theorem Statement.keptIn_after {statement : Statement} {done : List Step}
    (h : done <+: statement.trace setting s) :
    (replay setting s done).KeptIn (statement.after setting s) := by
  obtain ⟨rest, hrest⟩ := h
  have hkept := (leadsTo_replay setting (replay setting s done) rest).series
  rw [← replay_append, hrest, statement.traces_exec setting s] at hkept
  rw [after_eq]
  exact hkept

/-- The next time the property is taken the source is asked for it, and a series that it gives then
is the value and is kept. -/
structure State.Fetchable (setting : Setting) (s : State) (fetch : Fetch) : Prop where
  asks : (property (.entity fetch.entity) fetch.property setting s).2.fetches =
    s.fetches ++ [s.fetch setting fetch.entity fetch.property fetch.endpoint]
  gives : ∀ series,
    (s.fetch setting fetch.entity fetch.property fetch.endpoint).answer = .series series →
      property (.entity fetch.entity) fetch.property setting s =
        (.ok (.series series),
          (s.asked (s.fetch setting fetch.entity fetch.property fetch.endpoint)).keeping setting
            fetch.key series)

theorem State.Fetchable.of_missing {fetch : Fetch}
    (hmapped : fetch.entity.kind.endpoint? fetch.property = some fetch.endpoint)
    (hmissing : s.kept? setting fetch.key = none) : s.Fetchable setting fetch where
  asks := fetches_property_of_missing hmapped hmissing
  gives series hseries := by
    have hfetched := entityProperty_of_missing hmapped hmissing
    rw [hseries] at hfetched
    exact hfetched

/-- What is left of a statement, begun in one state, in the state after it, if the source crashed in
answer to a call in between. -/
structure Statement.BrokenOff (setting : Setting) (statement : Statement) (s s' : State)
    (fetch : Fetch) (message : Option String) : Prop where
  /-- No call follows the crash, and no other call made the source crash. -/
  calls : ∃ earlier, s'.fetches = s.fetches ++ (earlier ++ [fetch]) ∧
    ∀ other ∈ earlier, other.IsAnswered
  /-- The crash is recorded after all that was recorded on the way to it. -/
  diagnostics : s'.diagnostics = (statement.exec setting s).2.diagnostics ++
    [⟨.interpreterError, "Interpreter error: " ++ message.getD namelessCrash⟩]
  /-- No other crash was recorded. -/
  recorded : GrowsBy (fun d => d.kind ≠ .interpreterError) s.diagnostics
    (statement.exec setting s).2.diagnostics
  plots : s'.plots = s.plots
  highlights : s'.highlights = s.highlights
  bindings : ∀ name, statement.target? ≠ some name →
    s'.bindings.find? name = s.bindings.find? name
  /-- A series that was kept before, or at any time during the statement, is kept. -/
  series : ∀ done, done <+: statement.trace setting s → (replay setting s done).KeptIn s'
  /-- Nothing is kept for the call that made the source crash. -/
  missing : s'.kept? setting fetch.key = none
  fetchable : s'.Fetchable setting fetch

theorem Statement.brokenOff {statement : Statement} {fetch : Fetch}
    (hfetch : fetch ∈ statement.calls setting s) (hcrash : fetch.answer = .crash message) :
    statement.BrokenOff setting s (statement.after setting s) fetch message := by
  obtain ⟨t, hcalm, hmapped, hmissing, hexec⟩ := exec_of_crash hfetch hcrash
  obtain ⟨-, hplots, hhighlights⟩ := frame_of_crashed hexec
  have hafter : statement.after setting s =
      (t.asked fetch).recording [.crash (message.getD namelessCrash)] := by
    rw [after_eq, hexec]
    rfl
  have hmissing' : (statement.after setting s).kept? setting fetch.key = none := by
    rw [hafter]
    exact hmissing
  exact
    { calls := hafter ▸ hcalm.fetches_asked fetch
      diagnostics := by
        rw [hafter, hexec]
        exact List.map_append
      recorded := by
        rw [hexec]
        exact hcalm.failures.map fun _ h => h.kind_ne
      plots := hafter ▸ hplots
      highlights := hafter ▸ hhighlights
      bindings := fun _ htarget => find?_after_of_ne htarget
      series := fun _ hdone => keptIn_after hdone
      missing := hmissing'
      fetchable := .of_missing hmapped hmissing' }

end Crashes

/-- A script runs to its end whatever the source does. If the source crashes in the middle of a
statement then this statement is broken off there and the crash is recorded; what it has recorded
and kept up to there stays, nothing else changes but for the variable of an assignment, and the next
statement starts from just that state. -/
theorem Script.crash_breaks_off_one (front rest : List Statement) (statement : Statement)
    (setting : Setting) (s : State) (fetch : Fetch) (message : Option String)
    (hfetch : fetch ∈ statement.calls setting (stateAfter setting s front))
    (hcrash : fetch.answer = .crash message) :
    (Script.mk (front ++ statement :: rest)).exec setting s =
        (.ok (), stateAfter setting s (front ++ statement :: rest)) ∧
      (Script.mk (front ++ statement :: rest)).exec setting s =
        execAll rest setting (statement.after setting (stateAfter setting s front)) ∧
      statement.BrokenOff setting (stateAfter setting s front)
        (statement.after setting (stateAfter setting s front)) fetch message := by
  refine ⟨execAll_apply _ setting s, ?_, Statement.brokenOff hfetch hcrash⟩
  exact (execAll_append front (statement :: rest) setting s).trans (execAll_cons statement rest)

/-- The message of a crash, which may be absent, if the answer is one. -/
def Answer.crash? : Answer → Option (Option String)
  | .crash message => some message
  | _ => none

theorem Answer.eq_crash_of_crash? {answer : Answer} {message : Option String}
    (h : answer.crash? = some message) : answer = .crash message := by
  cases answer with
  | series series => cases h
  | error e => cases h
  | crash other => exact congrArg Answer.crash (Option.some.inj h)

/-- A setting in which the source breaks down when it is asked for `y`. -/
def Setting.breakingAtY : Setting where
  source := fun _ call =>
    if call.id = "y" then .crash (some "out of reach") else .series (.single 1 none)

/-- A plot of a name without a value, of a metric that there is and of one that makes the source
break down. -/
def Statement.plottingThree : Statement :=
  .plot [.array [.variable "u", .reading .protocol "x" "tvl", .reading .protocol "y" "tvl"]]

theorem Script.crash_breaks_off_one_plottingThree :
    ∃ fetch ∈ Statement.plottingThree.calls .breakingAtY
        (stateAfter .breakingAtY {} [.assigningOne]),
      fetch.answer = .crash (some "out of reach") ∧
      Statement.plottingThree.BrokenOff .breakingAtY (stateAfter .breakingAtY {} [.assigningOne])
        (stateAfter .breakingAtY {} [.assigningOne, .plottingThree]) fetch (some "out of reach") ∧
      ((Script.mk [.assigningOne, .plottingThree, .highlight [.variable "a"]]).interpret
          .breakingAtY).diagnostics.map Diagnostic.kind =
        [.undefinedVariable, .interpreterError] := by
  have hanswers : (Statement.plottingThree.calls .breakingAtY
      (stateAfter .breakingAtY {} [.assigningOne])).map (·.answer.crash?) =
        [none] ++ [some (some "out of reach")] := by
    decide +kernel
  obtain ⟨front, last, hcalls, -, hlast⟩ := List.map_eq_append_iff.mp hanswers
  obtain ⟨fetch, rfl, hfetch⟩ := List.map_eq_singleton_iff.mp hlast
  have hmem : fetch ∈ Statement.plottingThree.calls .breakingAtY
      (stateAfter .breakingAtY {} [.assigningOne]) := by
    rw [hcalls]
    exact List.mem_append_right front List.mem_cons_self
  have hcrash := Answer.eq_crash_of_crash? hfetch
  obtain ⟨-, -, hbroken⟩ := crash_breaks_off_one [.assigningOne] [.highlight [.variable "a"]]
    .plottingThree .breakingAtY {} fetch _ hmem hcrash
  exact ⟨fetch, hmem, hcrash, hbroken, by decide +kernel⟩

end MetricScript
