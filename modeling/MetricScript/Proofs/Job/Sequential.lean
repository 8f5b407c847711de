import MetricScript.Proofs.Job.Outcome
import MetricScript.Proofs.Run.Outcome
import MetricScript.Proofs.Trace.Basic

/-! # Runs in which only one thing is done at a time

If arguments are evaluated one after the other, or if every call is answered at once, then a job
ends as the computation does that it stands for, in the same state. -/

namespace MetricScript

open Run Trace

namespace Job

variable {α β : Type} {setting : Setting} {scene scene' scene'' : Scene}

/-! ## What a job ends with -/

/-- The job ends in this way, and on the first poll if every call is answered at once. -/
def Ends (setting : Setting) (job : Job α) (scene : Scene) (r : Except Stop α) (scene' : Scene) :
    Prop :=
  ∃ polls, (setting.Prompt → polls = 0) ∧ job.outcome? setting polls scene = some (r, scene')

theorem Ends.of_ready {job : Job α} {r : Except Stop α}
    (h : job.poll setting scene = .ready r scene') : Ends setting job scene r scene' :=
  ⟨0, fun _ => rfl, outcome?_of_ready h 0⟩

theorem Ends.poll_of_prompt {job : Job α} {r : Except Stop α} (h : Ends setting job scene r scene')
    (hprompt : setting.Prompt) : job.poll setting scene = .ready r scene' := by
  obtain ⟨polls, hzero, hend⟩ := h
  rw [hzero hprompt] at hend
  cases hpoll : job.poll setting scene with
  | ready r₁ scene₁ =>
      rw [outcome?_of_ready hpoll] at hend
      cases hend
      rfl
  | pending rest scene₁ =>
      rw [outcome?_zero_of_pending hpoll] at hend
      cases hend

theorem Ends.goesOn {around : Job α → Job β} {next : Except Stop α → Scene → Job β × Scene}
    (h : GoesOn setting around next) {job : Job α} {r : Except Stop α} {r' : Except Stop β}
    (hjob : Ends setting job scene r scene')
    (hnext : Ends setting (next r scene').1 (next r scene').2 r' scene'') :
    Ends setting (around job) scene r' scene'' := by
  obtain ⟨polls, hzero, hend⟩ := hjob
  obtain ⟨more, hzero', hend'⟩ := hnext
  refine ⟨polls + more, fun hprompt => ?_, h.outcome? hend hend'⟩
  rw [hzero hprompt, hzero' hprompt]

theorem Ends.ended (r : Except Stop α) (scene : Scene) :
    Ends setting (.ended r) scene r scene :=
  .of_ready rfl

theorem Ends.ofRun {x : Run α} {r : Except Stop α} {s' : State}
    (h : x setting scene.state = (r, s')) :
    Ends setting (liftM x : Job α) scene r { scene with state := s' } := by
  have hpoll : (Job.doing x fun a => .ended (.ok a)).poll setting scene =
      .ready r { scene with state := s' } := by
    simp only [poll, h]
    cases r <;> rfl
  exact .of_ready hpoll

theorem Ends.bind {job : Job α} {f : α → Job β} {a : α} {r : Except Stop β}
    (hjob : Ends setting job scene (.ok a) scene') (hnext : Ends setting (f a) scene' r scene'') :
    Ends setting (job >>= f) scene r scene'' :=
  .goesOn (goesOn_bind f) hjob hnext

theorem Ends.bind_stop {job : Job α} {f : α → Job β} {stop : Stop}
    (hjob : Ends setting job scene (.error stop) scene') :
    Ends setting (job >>= f) scene (.error stop) scene' :=
  .goesOn (goesOn_bind f) hjob (.ended _ _)

/-- What ends the rest of a job ends the job. -/
theorem Ends.of_poll_eq {job rest : Job α} {r : Except Stop α}
    (h : job.poll setting scene = rest.poll setting scene')
    (hrest : Ends setting rest scene' r scene'') : Ends setting job scene r scene'' := by
  obtain ⟨polls, hzero, hend⟩ := hrest
  exact ⟨polls, hzero, by rw [outcome?_congr h, hend]⟩

theorem Ends.entering {entity : Entity} {name : String} {next : Ticket → Job α}
    {r : Except Stop α}
    (h : Ends setting (next (scene.nextTicket entity name)) (scene.entered entity name) r scene') :
    Ends setting (.entering entity name next) scene r scene' := by
  have hpoll : (Job.entering entity name next).poll setting scene =
    (next (scene.nextTicket entity name)).poll setting (scene.entered entity name) := rfl
  exact .of_poll_eq hpoll h

theorem Ends.leaving {ticket : Ticket} {rest : Job α} {r : Except Stop α}
    (h : Ends setting rest (scene.left ticket) r scene') :
    Ends setting (.leaving ticket rest) scene r scene' := by
  have hpoll : (Job.leaving ticket rest).poll setting scene =
    rest.poll setting (scene.left ticket) := rfl
  exact .of_poll_eq hpoll h

theorem Ends.waiting {ticket : Ticket} {rest : Job α} {r : Except Stop α}
    (hturn : scene.isTurn setting ticket = true) (hrest : Ends setting rest scene r scene') :
    Ends setting (.waiting ticket rest) scene r scene' :=
  .of_poll_eq (by simp only [poll, hturn, if_true]) hrest

theorem Ends.resting {polls : Nat} (hpolls : setting.Prompt → polls = 0) {rest : Job α}
    {r : Except Stop α} (hrest : Ends setting rest scene r scene') :
    Ends setting (.resting polls rest) scene r scene' := by
  obtain ⟨more, hzero, hend⟩ := hrest
  refine ⟨polls + more, fun hprompt => by rw [hpolls hprompt, hzero hprompt], ?_⟩
  clear hpolls
  induction polls with
  | zero =>
      have hpoll : (Job.resting 0 rest).poll setting scene = rest.poll setting scene := rfl
      rw [Nat.zero_add, outcome?_congr hpoll, hend]
  | succ polls ih =>
      have hpoll : (Job.resting (polls + 1) rest).poll setting scene =
        .pending (.resting polls rest) scene := rfl
      rw [Nat.add_right_comm, outcome?_of_pending hpoll, ih]

/-! ## Jobs that follow a computation -/

/-- Wherever nobody is in line, the job ends as the computation does, and it takes metrics of the
handles along its trace. -/
def Follows (setting : Setting) (job : Job α) (t : Trace) (x : Run α) : Prop :=
  ∀ s taken, Ends setting job { state := s, handles := taken } (x setting s).1
    { state := (x setting s).2, handles := taken ++ handles (t setting s) }

namespace Follows

variable {job : Job α} {t : Trace} {x : Run α}

theorem ends (h : Follows setting job t x) {s s' : State} {r : Except Stop α}
    (hx : x setting s = (r, s')) (taken : List Entity) :
    Ends setting job { state := s, handles := taken } r
      { state := s', handles := taken ++ handles (t setting s) } := by
  have hend := h s taken
  rwa [hx] at hend

/-- A computation that takes no metric. -/
theorem ofRun (x : Run α) (ht : ∀ s, handles (t setting s) = []) :
    Follows setting (liftM x : Job α) t x := by
  intro s taken
  rw [ht s, List.append_nil]
  exact .ofRun rfl

theorem pure (a : α) : Follows setting (Pure.pure a) (row []) (Pure.pure a) := by
  intro s taken
  rw [row, handles_nil, List.append_nil]
  exact .ended _ _

theorem bind {f : α → Job β} {next : α → Trace} {g : α → Run β} (hx : Follows setting job t x)
    (hf : ∀ a, Follows setting (f a) (next a) (g a)) :
    Follows setting (job >>= f) (t.andThen x next) (x >>= g) := by
  intro s taken
  rw [Trace.andThen, handles_append, ← List.append_assoc]
  rcases Run.apply_cases x setting s with ⟨a, s', h⟩ | ⟨stop, s', h⟩
  · rw [bind_apply_ok h, h]
    exact .bind (hx.ends h taken) (hf a s' _)
  · rw [bind_apply_error h, h, handles_nil, List.append_nil]
    exact .bind_stop (hx.ends h taken)

/-- What follows takes no steps. -/
theorem bind_still {f : α → Job β} {g : α → Run β} (hx : Follows setting job t x)
    (hf : ∀ a, Follows setting (f a) (row []) (g a)) :
    Follows setting (job >>= f) t (x >>= g) := by
  have hsteps (s : State) : (t.andThen x fun _ => row []) setting s = t setting s := by
    rw [Trace.andThen]
    split <;> exact List.append_nil _
  intro s taken
  have hend := hx.bind hf s taken
  rwa [hsteps] at hend

theorem attempting {body : Job Value} {x : Run Value} {next : Except Failure Value → Job β}
    {u : Except Failure Value → Trace} {g : Except Failure Value → Run β}
    (hx : Follows setting body t x) (hnext : ∀ result, Follows setting (next result) (u result)
      (g result)) :
    Follows setting (.attempting body next) (t.andThen (attempt x) u) (attempt x >>= g) := by
  intro s taken
  rw [Trace.andThen, handles_append, ← List.append_assoc]
  rcases h : x setting s with ⟨(f | message) | value, s'⟩
  · rw [bind_apply_ok (attempt_of_failed h), attempt_of_failed h]
    exact .goesOn (goesOn_attempting next) (hx.ends h taken) (hnext _ s' _)
  · rw [bind_apply_error (attempt_of_crashed h), attempt_of_crashed h, handles_nil, List.append_nil]
    exact .goesOn (goesOn_attempting next) (hx.ends h taken) (.ended _ _)
  · rw [bind_apply_ok (attempt_of_ok h), attempt_of_ok h]
    exact .goesOn (goesOn_attempting next) (hx.ends h taken) (hnext _ s' _)

/-- Steps that record are no steps that take metrics. -/
theorem congr {u : Trace} (hx : Follows setting job t x)
    (h : ∀ s, handles (u setting s) = handles (t setting s)) : Follows setting job u x := by
  intro s taken
  rw [h s]
  exact hx s taken

theorem settle {body : Job Value} {x : Run Value} (hx : Follows setting body t x) :
    Follows setting body.settle (t.settling x) (Run.settle x) := by
  have hsettle : Follows setting body.settle (t.andThen (attempt x) fun _ => row [])
      (Run.settle x) :=
    hx.attempting fun result => .ofRun (settleResult result) fun _ => rfl
  refine hsettle.congr fun s => ?_
  rw [Trace.settling, Trace.andThen, handles_append, handles_append]
  rcases x setting s with ⟨(f | message) | value, s'⟩ <;>
    rcases attempt x setting s with ⟨stop | result, s''⟩ <;> rfl

theorem contained {body : Job Unit} {x : Run Unit} {rest : Job Unit} {u : Trace} {y : Run Unit}
    (hx : Follows setting body t x) (hrest : Follows setting rest u y) :
    Follows setting (.contained body rest) ((t.containing x).andThen (contain x) fun _ => u)
      (contain x >>= fun _ => y) := by
  intro s taken
  have hcontain : contain x setting s = (.ok (), (contain x setting s).2) := by
    rcases h : x setting s with ⟨(f | message) | ⟨⟩, s'⟩ <;> simp [contain, h, record_apply]
  have hsettled (taken : List Entity) :
      Scene.settled { state := (x setting s).2, handles := taken } setting (x setting s).1 =
        { state := (contain x setting s).2, handles := taken } := by
    rcases h : x setting s with ⟨(f | message) | ⟨⟩, s'⟩ <;> simp [Scene.settled, contain, h]
  have hsteps : handles (t.containing x setting s) = handles (t setting s) := by
    rw [Trace.containing, handles_append]
    rcases x setting s with ⟨(f | message) | ⟨⟩, s'⟩ <;> exact List.append_nil _
  rw [bind_apply_ok hcontain, Trace.andThen, hcontain, handles_append, hsteps,
    ← List.append_assoc]
  refine .goesOn (goesOn_contained rest) (hx s taken) ?_
  rw [hsettled]
  exact hrest _ _

/-! ## Properties -/

/-- Whoever is alone in line has its turn at once, and leaves the line as it was. -/
theorem keptOrFetched (entity : Entity) (name : String) (endpoint : Endpoint)
    (hmapped : entity.kind.endpoint? name = some endpoint) :
    Follows setting (Job.keptOrFetched entity name (Job.ask entity name endpoint))
      (row [.access (.entity entity) name])
      (Run.keptOrFetched (cacheKey entity.id name) (Run.ask entity name endpoint)) := by
  intro s taken
  let key := cacheKey entity.id name
  let ticket : Ticket := ⟨key, 0⟩
  have htaken : taken ++ handles (row [.access (.entity entity) name] setting s) =
      taken ++ [entity] := by
    simp [row, handles, Step.handle?, hmapped]
  let inLine (s : State) : Scene := { state := s, line := [ticket], handles := taken ++ [entity] }
  let after (s : State) : Scene := { state := s, handles := taken ++ [entity] }
  have hleft (s : State) : (inLine s).left ticket = after s := by
    simp [Scene.left, inLine, after]
  have hkept : Ends setting (liftM (kept? key)) (inLine s) (.ok (s.kept? setting key)) (inLine s) :=
    .ofRun rfl
  rw [htaken]
  have hticket : Scene.nextTicket { state := s, handles := taken } entity name = ticket := rfl
  refine .entering ?_
  rw [hticket]
  change Ends setting (.waiting ticket _) (inLine s) _ _
  refine .waiting (by simp [Scene.isTurn, inLine, ticket]) (.bind hkept ?_)
  cases h : s.kept? setting key with
  | some series =>
      rw [keptOrFetched_of_kept h]
      refine .leaving ?_
      rw [hleft]
      exact .ended _ _
  | none =>
      let fetch := s.fetch setting entity name endpoint
      have hask : Run.ask entity name endpoint setting s = (.ok fetch.answer, s.asked fetch) := rfl
      have hfetched : Ends setting (Job.ask entity name endpoint) (inLine s) (.ok fetch.answer)
          (inLine (s.asked fetch)) :=
        .bind (.ofRun rfl) (.bind (.ofRun hask) (.resting (fun h => h _ _) (.ended _ _)))
      rw [keptOrFetched_of_missing h hask]
      refine .bind hfetched (.leaving ?_)
      rw [hleft]
      cases fetch.answer with
      | series series => exact .bind (.ofRun rfl) (.ended _ _)
      | error e => exact .ended _ _
      | crash message => exact .ofRun rfl

theorem property (base : Value) (name : String) :
    Follows setting (Job.property base name) (row [.access base name])
      (Run.property base name) := by
  cases base with
  | entity entity =>
      change Follows setting (Job.entityProperty entity name) _ (Run.entityProperty entity name)
      unfold Job.entityProperty Run.entityProperty
      cases hmapped : entity.kind.endpoint? name with
      | none => exact .ofRun _ fun s => by simp [row, handles, Step.handle?, hmapped]
      | some endpoint =>
          refine (keptOrFetched entity name endpoint hmapped).bind_still fun result => ?_
          cases result with
          | ok series => exact .pure _
          | error e => exact .ofRun _ fun _ => rfl
  | scalar x => exact .ofRun _ fun _ => rfl
  | series t => exact .ofRun _ fun _ => rfl
  | list items => exact .ofRun _ fun _ => rfl

theorem properties (base : Value) (names : List String) :
    Follows setting (Job.properties base names) (propertiesTrace base names)
      (Run.properties base names) := by
  induction names generalizing base with
  | nil => exact .pure base
  | cons name rest ih => exact (property base name).bind ih

end Follows

/-! ## Arguments -/

/-- A job that has ended with a result. -/
def ofResult (result : Except Failure Value) : Job Value :=
  .ended (result.mapError .failed)

theorem mapM_result?_ofResult (results : List (Except Failure Value)) :
    (results.map ofResult).mapM result? = some results := by
  induction results with
  | nil => rfl
  | cons result rest ih =>
      rw [List.map_cons, List.mapM_cons, ih]
      cases result <;> rfl

theorem follows_inTurn {arguments : List Expr}
    (h : ∀ e ∈ arguments, Follows setting e.job e.trace e.eval) :
    Follows setting (inTurn (Expr.jobs arguments)) (Expr.attemptsTrace arguments)
      (Expr.attemptAll arguments) := by
  induction arguments with
  | nil => exact .pure []
  | cons e rest ih =>
      obtain ⟨he, hrest⟩ := List.forall_mem_cons.mp h
      exact he.attempting fun result => (ih hrest).bind_still fun results => .pure _

/-- If every call is answered at once then each argument ends on its first poll, before the next one
is polled. -/
theorem pollAll_of_prompt (hprompt : setting.Prompt) {arguments : List Expr}
    (h : ∀ e ∈ arguments, Follows setting e.job e.trace e.eval) (s : State) (taken : List Entity) :
    pollAll setting (Expr.jobs arguments) { state := s, handles := taken } =
      ((Expr.attemptAll arguments setting s).1.map (List.map ofResult),
        { state := (Expr.attemptAll arguments setting s).2
          handles := taken ++ handles (Expr.attemptsTrace arguments setting s) }) := by
  induction arguments generalizing s taken with
  | nil =>
      simp only [Expr.attemptsTrace, row, handles_nil, List.append_nil]
      rfl
  | cons e rest ih =>
      obtain ⟨he, hrest⟩ := List.forall_mem_cons.mp h
      have hleft : (e.job.poll setting { state := s, handles := taken }).left =
          ((attempt e.eval setting s).1.map ofResult,
            { state := (attempt e.eval setting s).2
              handles := taken ++ handles (e.trace setting s) }) := by
        rw [(he s taken).poll_of_prompt hprompt]
        rcases heval : e.eval setting s with ⟨(f | message) | value, s'⟩
        · rw [attempt_of_failed heval]
          rfl
        · rw [attempt_of_crashed heval]
          rfl
        · rw [attempt_of_ok heval]
          rfl
      rw [Expr.jobs, pollAll, hleft, Expr.attemptAll, Expr.attemptsTrace, Trace.andThen,
        handles_append, ← List.append_assoc]
      rcases hfirst : attempt e.eval setting s with ⟨stop | result, s'⟩
      · rw [bind_apply_error hfirst]
        simp only [Except.map, handles_nil, List.append_nil]
      · rw [bind_apply_ok hfirst]
        simp only [Except.map, ih hrest s']
        rcases hothers : Expr.attemptAll rest setting s' with ⟨stop | results, s''⟩
        · rw [bind_apply_error hothers]
        · rw [bind_apply_ok hothers]
          rfl

/-- All arguments are evaluated as if one came after the other. -/
theorem follows_allResults (horder : setting.OneAtATime) {arguments : List Expr}
    (h : ∀ e ∈ arguments, Follows setting e.job e.trace e.eval) :
    Follows setting (allResults (Expr.jobs arguments)) (Expr.attemptsTrace arguments)
      (Expr.attemptAll arguments) := by
  intro s taken
  refine .bind (.ofRun rfl) ?_
  by_cases hconcurrent : setting.config.concurrentArguments = true
  · have hprompt : setting.Prompt := by
      rcases horder with hfalse | hprompt
      · exact absurd hconcurrent (by simp [hfalse])
      · exact hprompt
    have hpolls := pollAll_of_prompt hprompt h s taken
    simp only [hconcurrent, if_true]
    refine .of_ready ?_
    simp only [poll, hpolls]
    rcases Expr.attemptAll arguments setting s with ⟨stop | results, s'⟩
    · rfl
    · simp only [Except.map, mapM_result?_ofResult]
      rfl
  · simp only [hconcurrent]
    exact follows_inTurn h s taken

end Job

open Job

/-! ## Expressions, statements and scripts -/

section Scripts

variable {setting : Setting} (horder : setting.OneAtATime)

theorem Expr.follows_jobOfItems {items : List Expr}
    (h : ∀ e ∈ items, Follows setting e.job e.trace e.eval) :
    Follows setting (Expr.jobOfItems items) (Expr.itemsTrace items) (Expr.evalItems items) := by
  induction items with
  | nil => exact .pure []
  | cons e rest ih =>
      obtain ⟨he, hrest⟩ := List.forall_mem_cons.mp h
      exact he.settle.bind fun value => (ih hrest).bind_still fun values => .pure _

theorem Expr.follows_jobOfLinks {rest : List (Operator × Expr)}
    (h : ∀ link ∈ rest, Follows setting link.2.job link.2.trace link.2.eval)
    (left : Option Value) :
    Follows setting (Expr.jobOfLinks left rest) (Expr.linksTrace rest)
      (Expr.evalLinks left rest) := by
  induction rest generalizing left with
  | nil => exact .pure left
  | cons link rest ih =>
      obtain ⟨op, e⟩ := link
      obtain ⟨he, hrest⟩ := List.forall_mem_cons.mp h
      refine he.settle.bind fun value => (Follows.ofRun _ fun _ => rfl).bind fun right => ?_
      intro s taken
      exact .bind (.ofRun rfl) (ih hrest _ s taken)

include horder

theorem Expr.follows_job (e : Expr) : Follows setting e.job e.trace e.eval := by
  induction e using Expr.induct with
  | literal l => exact .pure l.value
  | name name => exact .ofRun _ fun _ => rfl
  | array items ih => exact (Expr.follows_jobOfItems ih).bind_still fun values => .pure _
  | call function arguments ih =>
      refine (follows_allResults horder ih).bind fun results =>
        (Follows.ofRun _ fun _ => ?_).bind fun values => .ofRun _ fun _ => rfl
      simp [row, settledSteps, handles, Step.handle?]
  | member base names ih => exact ih.bind fun value => .properties value names
  | chain first rest hfirst hrest =>
      by_cases hempty : rest.isEmpty = true
      · simpa only [Expr.job, Expr.eval, Expr.trace, hempty, if_true] using hfirst
      · simp only [Expr.job, Expr.eval, Expr.trace, hempty]
        refine hfirst.settle.bind fun left =>
          (Expr.follows_jobOfLinks hrest left).bind_still fun value => ?_
        cases value with
        | none => exact .ofRun _ fun _ => rfl
        | some v => exact .pure v
  | not operand ih =>
      exact ih.settle.bind_still fun value =>
        (Follows.ofRun _ fun _ => rfl).bind_still fun moment => .pure _
  | unsupported => exact .ofRun _ fun _ => rfl

theorem Expr.follows_jobOfArguments (arguments : List Expr) :
    Follows setting (Expr.jobOfArguments arguments) (Expr.argumentsTrace arguments)
      (Expr.evalArguments arguments) := by
  refine (follows_allResults horder fun e _ => e.follows_job horder).bind fun results =>
    .ofRun _ fun _ => ?_
  simp [row, settledSteps, handles, Step.handle?]

omit horder in
theorem handles_checks (arguments : List Expr) (values : List (Option Value)) :
    handles (List.zipWith (fun e => .check e.variable?) arguments values) = [] := by
  induction arguments generalizing values with
  | nil => rfl
  | cons e rest ih =>
      cases values with
      | nil => rfl
      | cons value values => exact ih values

omit horder in
theorem handles_plotSteps (values : List (Option Value)) : handles (plotSteps values) = [] := by
  unfold plotSteps
  cases Builtin.argument? values 0 with
  | none => rfl
  | some series =>
      simp only [styleSteps]
      cases series.isEmptyCollection <;>
        cases (Builtin.argument? values 2).bind Value.string? <;>
        cases (Builtin.argument? values 3).bind Value.string? <;> rfl

theorem Statement.follows_job (statement : Statement) :
    Follows setting statement.job statement.trace statement.exec := by
  cases statement with
  | assignment name value =>
      cases value with
      | none => exact .ofRun _ fun _ => rfl
      | some e =>
          refine (e.follows_job horder).attempting fun result => ?_
          cases result <;> exact .ofRun _ fun _ => rfl
  | plot arguments =>
      by_cases hempty : arguments.isEmpty = true
      · simp only [Statement.job, Statement.exec, Statement.trace, plotArguments, hempty, if_true]
        exact .ofRun _ fun _ => rfl
      · simp only [Statement.job, Statement.exec, Statement.trace, plotArguments, hempty]
        exact (Expr.follows_jobOfArguments horder arguments).bind fun values =>
          (Follows.ofRun _ fun _ => handles_checks arguments values).bind fun values =>
            .ofRun _ fun _ => handles_plotSteps values
  | highlight arguments =>
      exact (Expr.follows_jobOfArguments horder arguments).bind fun values =>
        .ofRun _ fun _ => rfl
  | expression e => exact .pure ()
  | unsupported rule => exact .ofRun _ fun _ => rfl

end Scripts

end MetricScript
