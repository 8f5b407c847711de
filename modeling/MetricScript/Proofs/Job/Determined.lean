import MetricScript.Proofs.Job.Yields

/-! # What does not depend on time

If the answer to a call depends on the call alone then the job of a script yields something that is
the same whether series are kept or not and however long the source takes. What time decides is the
order in which failures are recorded, and which failures are lost when the source crashes. -/

namespace MetricScript

open Run

namespace Job

variable {α β : Type} {c : Comparison} {keeps still : Bool} {entities : List Entity}

/-! ## Going on -/

/-- What a job that goes on with the value of another one yields after it. -/
def YieldsNext (c : Comparison) (keeps : Bool) (entities : List Entity) (f : α → Job β)
    (still : Bool) (found : Option (Except Failure α)) (between : Board)
    (result : Option (Except Failure β)) (after : Board) (recorded : Multiset Failure) : Prop :=
  match found with
  | some (.ok a) => (f a).Yields c keeps entities still between result after recorded
  | some (.error e) => result = some (.error e) ∧ between = after ∧ recorded = 0
  | none => result = none ∧ between = after ∧ recorded = 0

theorem yields_bind {α : Type} (job : Job α) {f : α → Job β} {before between after : Board}
    {found : Option (Except Failure α)} {result : Option (Except Failure β)}
    {first later : Multiset Failure}
    (hjob : job.Yields c keeps entities still before found between first)
    (hnext : YieldsNext c keeps entities f still found between result after later) :
    (job.bind f).Yields c keeps entities still before result after (first + later) := by
  match job with
  | .ended (.ok a) =>
      obtain ⟨rfl, rfl, rfl⟩ := hjob
      rw [zero_add]
      exact hnext
  | .ended (.error (.failed e)) =>
      obtain ⟨rfl, rfl, rfl⟩ := hjob
      obtain ⟨rfl, rfl, rfl⟩ := hnext
      exact ⟨rfl, rfl, rfl⟩
  | .ended (.error (.crashed message)) =>
      obtain ⟨rfl, rfl, rfl⟩ := hjob
      obtain ⟨rfl, rfl, rfl⟩ := hnext
      exact ⟨rfl, rfl, rfl⟩
  | .doing x next =>
      intro s hkept hboard
      obtain ⟨hkept', hstill, now, rest, hfailures, rfl, hend⟩ := hjob s hkept hboard
      refine ⟨hkept', hstill, now, rest + later, hfailures, add_assoc _ _ _, ?_⟩
      rcases hx : x (c.setting keeps) s with ⟨(e | message) | b, s'⟩ <;> rw [hx] at hend
      · obtain ⟨rfl, rfl, rfl⟩ := hend
        obtain ⟨rfl, rfl, rfl⟩ := hnext
        exact ⟨rfl, rfl, rfl⟩
      · obtain ⟨rfl, rfl, rfl⟩ := hend
        obtain ⟨rfl, rfl, rfl⟩ := hnext
        exact ⟨rfl, rfl, rfl⟩
      · exact yields_bind (next b) hend hnext
  | .entering entity property next =>
      exact fun h number => yields_bind (next _) (hjob h number) hnext
  | .waiting ticket rest => exact yields_bind rest hjob hnext
  | .leaving ticket rest => exact yields_bind rest hjob hnext
  | .resting polls rest => exact yields_bind rest hjob hnext
  | .attempting body next =>
      simp only [Yields] at hjob
      rw [bind, Yields]
      obtain ⟨r, middle, early, hbody, hend⟩ := hjob
      cases r with
      | some r =>
          obtain ⟨late, rfl, hend⟩ := hend
          exact ⟨some r, middle, early, hbody, late + later, add_assoc _ _ _,
            yields_bind (next r) hend hnext⟩
      | none =>
          obtain ⟨hcrash, rfl, rfl⟩ := hend
          exact ⟨none, middle, early, hbody, hcrash, hnext.1, hnext.2.1⟩
  | .joined children next =>
      simp only [Yields] at hjob
      rw [bind, Yields]
      obtain ⟨results, early, hchildren, hend⟩ := hjob
      refine ⟨results, early, hchildren, ?_⟩
      cases hall : results.mapM id with
      | some rs =>
          rw [hall] at hend
          obtain ⟨late, rfl, hend⟩ := hend
          exact ⟨late + later, add_assoc _ _ _, yields_bind (next rs) hend hnext⟩
      | none =>
          rw [hall] at hend
          obtain ⟨hcrash, rfl, rfl⟩ := hend
          exact ⟨hcrash, hnext.1, hnext.2.1⟩
  | .contained body rest =>
      simp only [Yields] at hjob
      rw [bind, Yields]
      obtain ⟨r, middle, early, late, hbody, hcrash, rfl, hrest⟩ := hjob
      exact ⟨r, middle, early, late + later, hbody, hcrash, add_assoc _ _ _,
        yields_bind rest hrest hnext⟩
termination_by structural job

/-- A step that neither records anything nor changes what there is to show, and whose value may
depend on all the rest. -/
theorem yields_step {x : Run α} {f : α → Job β} {before after : Board}
    {result : Option (Except Failure β)} {recorded : Multiset Failure}
    (h : ∀ s, s.KeepsAnswers c.answer entities → s.board = before →
      ∃ a s', x (c.setting keeps) s = (.ok a, s') ∧ s'.KeepsAnswers c.answer entities ∧
        s'.board = before ∧ s'.failures = s.failures ∧
          (f a).Yields c keeps entities still before result after recorded) :
    ((liftM x : Job α) >>= f).Yields c keeps entities still before result after recorded := by
  have hstep : (liftM x : Job α) >>= f = .doing x f := rfl
  rw [hstep]
  intro s hkept hboard
  obtain ⟨a, s', hx, hkept', hboard', hfailures, hnext⟩ := h s hkept hboard
  rw [hx]
  refine ⟨hkept', fun _ => hboard', [], recorded, ?_, (zero_add _).symm, ?_⟩
  · rw [hfailures, List.append_nil]
  · change (f a).Yields c keeps entities still s'.board result after recorded
    rw [hboard']
    exact hnext

/-! ## Jobs that are determined -/

/-- What the job yields depends on variables, plots and highlights only. If the source never crashes
then the job does not crash. -/
def Determined (c : Comparison) (still : Bool) (job : Job α) : Prop :=
  ∀ before, ∃ result after recorded, (still = true → after = before) ∧
    (c.Calm → result ≠ none) ∧ ∀ keeps entities, (keeps = true → OneKindEach entities) →
      job.Yields c keeps entities still before result after recorded

namespace Determined

theorem pure (a : α) : Determined c still (pure a : Job α) := by
  intro before
  exact ⟨some (.ok a), before, 0, fun _ => rfl, fun _ => by simp, fun _ _ _ => ⟨rfl, rfl, rfl⟩⟩

/-- A computation that goes by what there is to show, the same in either setting. -/
theorem ofRun {x : Run α} (r : Board → Except Failure α) (after : Board → Board)
    (told : List Failure) (hstill : still = true → ∀ board, after board = board)
    (h : ∀ keeps s, x (c.setting keeps) s =
      ((r s.board).mapError .failed,
        { s.recording told with
          bindings := (after s.board).bindings
          plots := (after s.board).plots
          highlights := (after s.board).highlights })) :
    Determined c still (liftM x : Job α) := by
  have hlift : (liftM x : Job α) = .doing x fun a => .ended (.ok a) := rfl
  intro before
  rw [hlift]
  refine ⟨some (r before), after before, ↑told, fun hs => hstill hs before, fun _ => by simp,
    fun keeps entities _ s hkept hboard => ?_⟩
  subst hboard
  rw [h keeps s]
  refine ⟨hkept, fun hs => hstill hs s.board, told, 0, rfl, (add_zero _).symm, ?_⟩
  cases r s.board with
  | error e => exact ⟨rfl, rfl, rfl⟩
  | ok a => exact ⟨rfl, rfl, rfl⟩

/-- A computation that changes nothing but what is recorded. -/
theorem recording {x : Run α} (r : Board → Except Failure α) (told : List Failure)
    (h : ∀ keeps s, x (c.setting keeps) s = ((r s.board).mapError .failed, s.recording told)) :
    Determined c still (liftM x : Job α) :=
  .ofRun r id told (fun _ _ => rfl) h

theorem fail (e : Failure) : Determined c still (liftM (fail e : Run α)) :=
  .recording (fun _ => .error e) [] fun _ s => by rw [s.recording_nil]; rfl

theorem bind {job : Job α} {f : α → Job β} (hjob : Determined c still job)
    (hf : ∀ a, Determined c still (f a)) : Determined c still (job >>= f) := by
  intro before
  obtain ⟨found, between, first, hstill, hcalm, hjob⟩ := hjob before
  rcases found with _ | e | a
  · exact ⟨none, between, first + 0, hstill, fun hc => absurd rfl (hcalm hc),
      fun keeps entities hone => yields_bind job (hjob keeps entities hone) ⟨rfl, rfl, rfl⟩⟩
  · exact ⟨some (.error e), between, first + 0, hstill, fun _ => by simp,
      fun keeps entities hone => yields_bind job (hjob keeps entities hone) ⟨rfl, rfl, rfl⟩⟩
  · obtain ⟨result, after, later, hstill', hcalm', hnext⟩ := hf a between
    exact ⟨result, after, first + later, fun hs => (hstill' hs).trans (hstill hs), hcalm',
      fun keeps entities hone =>
        yields_bind job (hjob keeps entities hone) (hnext keeps entities hone)⟩

theorem attempting {body : Job Value} {next : Except Failure Value → Job α}
    (hbody : Determined c still body) (hnext : ∀ r, Determined c still (next r)) :
    Determined c still (.attempting body next) := by
  intro before
  obtain ⟨found, between, first, hstill, hcalm, hbody⟩ := hbody before
  cases found with
  | none =>
      refine ⟨none, between, first, hstill, fun hc => absurd rfl (hcalm hc),
        fun keeps entities hone => ?_⟩
      rw [Yields]
      exact ⟨none, between, first, hbody keeps entities hone, fun hc => hcalm hc rfl, rfl, rfl⟩
  | some r =>
      obtain ⟨result, after, later, hstill', hcalm', hnext⟩ := hnext r between
      refine ⟨result, after, first + later, fun hs => (hstill' hs).trans (hstill hs), hcalm',
        fun keeps entities hone => ?_⟩
      rw [Yields]
      exact ⟨some r, between, first, hbody keeps entities hone, later, rfl,
        hnext keeps entities hone⟩

theorem settle {body : Job Value} (hbody : Determined c still body) :
    Determined c still body.settle :=
  hbody.attempting fun result =>
    .recording (fun _ => .ok result.toOption) (failureOf? result).toList fun _ s => by
      rw [settleResult_apply]
      rfl

theorem inTurn {jobs : List (Job Value)} (h : ∀ job ∈ jobs, Determined c still job) :
    Determined c still (inTurn jobs) := by
  induction jobs with
  | nil => exact .pure []
  | cons job rest ih =>
      obtain ⟨hjob, hrest⟩ := List.forall_mem_cons.mp h
      exact hjob.attempting fun result => (ih hrest).bind fun results => .pure _

theorem yieldsAll {jobs : List (Job Value)} (h : ∀ job ∈ jobs, Determined c true job)
    (board : Board) :
    ∃ found recorded, (c.Calm → found.mapM id ≠ none) ∧
      ∀ keeps entities, (keeps = true → OneKindEach entities) →
        YieldsAll c keeps entities jobs board found recorded := by
  induction jobs with
  | nil => exact ⟨[], 0, fun _ => by simp, fun _ _ _ => ⟨rfl, rfl⟩⟩
  | cons job rest ih =>
      obtain ⟨hjob, hrest⟩ := List.forall_mem_cons.mp h
      obtain ⟨first, after, recorded, hstill, hcalm, hjob⟩ := hjob board
      obtain ⟨others, recorded', hcalm', hrest⟩ := ih hrest
      obtain rfl := hstill rfl
      refine ⟨first :: others, recorded + recorded', fun hc => ?_, fun keeps entities hone => ?_⟩
      · obtain ⟨r, rfl⟩ := Option.ne_none_iff_exists'.mp (hcalm hc)
        obtain ⟨rs, hrs⟩ := Option.ne_none_iff_exists'.mp (hcalm' hc)
        rw [List.mapM_cons, hrs]
        exact Option.some_ne_none (r :: rs)
      · rw [YieldsAll]
        exact ⟨first, others, recorded, recorded', rfl, rfl, hjob keeps entities hone,
          hrest keeps entities hone⟩

theorem joined {jobs : List (Job Value)} {next : List (Except Failure Value) → Job α}
    (h : ∀ job ∈ jobs, Determined c true job)
    (hnext : ∀ results, Determined c still (next results)) :
    Determined c still (.joined jobs next) := by
  intro before
  obtain ⟨found, first, hcalm, hjobs⟩ := yieldsAll h before
  cases hall : found.mapM id with
  | none =>
      refine ⟨none, before, first, fun _ => rfl, fun hc => absurd hall (hcalm hc),
        fun keeps entities hone => ?_⟩
      rw [Yields]
      exact ⟨found, first, hjobs keeps entities hone, by
        rw [hall]
        exact ⟨fun hc => hcalm hc hall, rfl, rfl⟩⟩
  | some results =>
      obtain ⟨result, after, later, hstill, hcalm', hnext⟩ := hnext results before
      refine ⟨result, after, first + later, hstill, hcalm', fun keeps entities hone => ?_⟩
      rw [Yields]
      exact ⟨found, first, hjobs keeps entities hone, by
        rw [hall]
        exact ⟨later, rfl, hnext keeps entities hone⟩⟩

theorem contained {body : Job Unit} {rest : Job α} (hbody : Determined c still body)
    (hrest : Determined c still rest) : Determined c still (.contained body rest) := by
  intro before
  obtain ⟨found, between, first, hstill, hcalm, hbody⟩ := hbody before
  obtain ⟨result, after, later, hstill', hcalm', hrest⟩ := hrest between
  refine ⟨result, after, first + failuresOf found + later,
    fun hs => (hstill' hs).trans (hstill hs), hcalm', fun keeps entities hone => ?_⟩
  rw [Yields]
  exact ⟨found, between, first, later, hbody keeps entities hone, hcalm, rfl,
    hrest keeps entities hone⟩

theorem allResults {jobs : List (Job Value)} (h : ∀ still, ∀ job ∈ jobs, Determined c still job) :
    Determined c still (allResults jobs) := by
  have hnext : Determined c still
      (if c.config.concurrentArguments then .joined jobs fun results => .ended (.ok results)
        else Job.inTurn jobs) := by
    split
    · exact joined (h true) fun results => .pure results
    · exact inTurn (h still)
  intro before
  obtain ⟨result, after, recorded, hstill, hcalm, hyields⟩ := hnext before
  refine ⟨result, after, recorded, hstill, hcalm, fun keeps entities hone => ?_⟩
  exact yields_step fun s hkept hboard =>
    ⟨_, s, rfl, hkept, hboard, rfl, hyields keeps entities hone⟩

end Determined

/-! ## Properties -/

/-- What the answer to a call is worth; nothing if the source crashed over it. -/
def worth : Answer → Option (Except FetchError Series)
  | .series series => some (.ok series)
  | .error e => some (.error e)
  | .crash _ => none

/-- The source gives its answer in the end. -/
theorem yields_ask (entity : Entity) (name : String) (endpoint : Endpoint) (board : Board) :
    (Job.ask entity name endpoint).Yields c keeps entities still board
      (some (.ok (c.answer ⟨endpoint, entity.id⟩))) board 0 :=
  yields_step fun s hkept hboard => ⟨_, s, rfl, hkept, hboard, rfl,
    yields_step fun _ hkept hboard => ⟨_, _, rfl, hkept, hboard, rfl, rfl, rfl, rfl⟩⟩

theorem board_keeping (s : State) (setting : Setting) (key : String) (series : Series) :
    (s.keeping setting key series).board = s.board := by
  obtain ⟨cache, hkeeping⟩ := s.exists_keeping_eq setting key series
  rw [hkeeping]
  rfl

theorem failures_keeping (s : State) (setting : Setting) (key : String) (series : Series) :
    (s.keeping setting key series).failures = s.failures := by
  obtain ⟨cache, hkeeping⟩ := s.exists_keeping_eq setting key series
  rw [hkeeping]

/-- What is kept is worth as much as the answer to the call. -/
theorem Determined.keptOrFetched {entity : Entity} {name : String} {endpoint : Endpoint}
    (hmapped : entity.kind.endpoint? name = some endpoint) :
    Determined c still (Job.keptOrFetched entity name (Job.ask entity name endpoint)) := by
  intro before
  refine ⟨(worth (c.answer ⟨endpoint, entity.id⟩)).map .ok, before, 0, fun _ => rfl, fun hc => ?_,
    fun keeps entities hone => ?_⟩
  · cases hanswer : c.answer ⟨endpoint, entity.id⟩ with
    | series series => exact Option.some_ne_none _
    | error e => exact Option.some_ne_none _
    | crash message => exact absurd hanswer (hc _ _)
  · intro hentity number
    refine yields_step fun s hkept hboard => ⟨_, s, kept?_apply _ _ s, hkept, hboard, rfl, ?_⟩
    cases hfound : s.kept? (c.setting keeps) (cacheKey entity.id name) with
    | some series =>
        cases keeps with
        | false => cases hfound
        | true =>
            rw [hkept.answer_of_kept (hone rfl) hentity hmapped hfound]
            exact ⟨rfl, rfl, rfl⟩
    | none =>
        refine (zero_add (0 : Multiset Failure)) ▸
          yields_bind (Job.ask entity name endpoint) (yields_ask entity name endpoint before) ?_
        cases hanswer : c.answer ⟨endpoint, entity.id⟩ with
        | series series =>
            exact yields_step fun s hkept hboard =>
              ⟨(), s.keeping (c.setting keeps) _ series, rfl,
                hkept.keeping hentity hmapped hanswer _, (board_keeping s _ _ _).trans hboard,
                failures_keeping s _ _ _, rfl, rfl, rfl⟩
        | error e => exact ⟨rfl, rfl, rfl⟩
        | crash message =>
            intro s' hkept' hboard'
            exact ⟨hkept', fun _ => hboard', [], 0, (List.append_nil _).symm, (zero_add _).symm,
              rfl, hboard', rfl⟩

namespace Determined

theorem property (base : Value) (name : String) :
    Determined c still (Job.property base name) := by
  have hplain (h : ∀ entity, base ≠ .entity entity) :
      Determined c still (liftM (Run.property base name) : Job Value) :=
    .recording (fun _ => plainProperty base name) [] fun keeps s => by
      rw [property_of_plain h, s.recording_nil]
  cases base with
  | entity entity =>
      change Determined c still (Job.entityProperty entity name)
      unfold Job.entityProperty
      cases hmapped : entity.kind.endpoint? name with
      | none => exact .fail _
      | some endpoint =>
          refine (keptOrFetched hmapped).bind fun result => ?_
          cases result with
          | ok series => exact .pure _
          | error e => exact .fail _
  | scalar x => exact hplain (by simp)
  | series t => exact hplain (by simp)
  | list items => exact hplain (by simp)

theorem properties (base : Value) (names : List String) :
    Determined c still (Job.properties base names) := by
  induction names generalizing base with
  | nil => exact .pure base
  | cons name rest ih => exact (property base name).bind ih

/-! ## Elementary computations -/

theorem now : Determined c still (liftM now : Job Timestamp) :=
  .recording (fun _ => .ok (c.setting true).now) [] fun _ s => by rw [s.recording_nil]; rfl

theorem nameValue (name : String) : Determined c still (liftM (nameValue name) : Job Value) := by
  by_cases hnull : name = "null"
  · refine .recording (fun _ => .ok .null) [] fun keeps s => ?_
    rw [nameValue_apply, if_pos hnull, s.recording_nil]
    rfl
  · refine .recording (fun board => (board.bindings.find? name).elim
      (.error (.undefinedVariable name)) .ok) [] fun keeps s => ?_
    rw [nameValue_apply, if_neg hnull, s.recording_nil]
    change _ = (Except.mapError _ ((s.bindings.find? name).elim _ _), s)
    cases s.bindings.find? name <;> rfl

theorem callFunction (function : String) (arguments : List (Option Value)) :
    Determined c still (liftM (callFunction function arguments) : Job Value) :=
  .recording (fun _ => callResult (c.setting true) function arguments) [] fun _ s => by
    rw [callFunction_apply, s.recording_nil]
    rfl

theorem settleResults (results : List (Except Failure Value)) :
    Determined c still (liftM (settleResults results) : Job (List (Option Value))) :=
  .recording (fun _ => .ok _) _ fun keeps s => settleResults_apply results (c.setting keeps) s

theorem refuseHandle (name : Option String) (value : Option Value) :
    Determined c still (liftM (refuseHandle name value) : Job (Option Value)) :=
  .recording (fun _ => .ok _) _ fun keeps s => refuseHandle_apply name value (c.setting keeps) s

theorem refuseHandles (arguments : List Expr) (values : List (Option Value)) :
    Determined c still (liftM (refuseHandles arguments values) : Job (List (Option Value))) :=
  .recording (fun _ => .ok _) _ fun keeps s =>
    refuseHandles_apply arguments values (c.setting keeps) s

theorem plotValues (values : List (Option Value)) :
    Determined c false (liftM (plotValues values) : Job Unit) := by
  cases h : Builtin.argument? values 0 with
  | none =>
      exact .recording (fun _ => .ok ()) [] fun keeps s => by
        rw [plotValues_of_missing h, s.recording_nil]
        rfl
  | some series =>
      cases he : series.isEmptyCollection with
      | true =>
          exact .recording (fun _ => .error .emptyPlot) [] fun keeps s => by
            rw [plotValues_of_empty h he, s.recording_nil]
            rfl
      | false =>
          exact .ofRun (fun _ => .ok ())
            (fun board => { board with plots := board.plots ++ [plotOf values series] })
            (styleFailures values) (by simp) fun keeps s => plotValues_of_drawn h he _ s

/-- A computation that changes what there is to show and does nothing else. -/
theorem changing {x : Run Unit} (r : Except Failure Unit) (after : Board → Board)
    (h : ∀ keeps s, x (c.setting keeps) s =
      (r.mapError .failed,
        { s with
          bindings := (after s.board).bindings
          plots := (after s.board).plots
          highlights := (after s.board).highlights })) :
    Determined c false (liftM x : Job Unit) :=
  .ofRun (fun _ => r) after [] (by simp) fun keeps s => by rw [h keeps s, s.recording_nil]

end Determined

end Job

open Job

/-! ## Expressions, statements and scripts -/

section Scripts

variable {c : Comparison} {still : Bool}

theorem Expr.determined_jobOfItems {items : List Expr}
    (h : ∀ e ∈ items, Determined c still e.job) : Determined c still (Expr.jobOfItems items) := by
  induction items with
  | nil => exact .pure []
  | cons e rest ih =>
      obtain ⟨he, hrest⟩ := List.forall_mem_cons.mp h
      exact he.settle.bind fun value => (ih hrest).bind fun values => .pure _

theorem Expr.determined_jobOfLinks {rest : List (Operator × Expr)}
    (h : ∀ link ∈ rest, Determined c still link.2.job) (left : Option Value) :
    Determined c still (Expr.jobOfLinks left rest) := by
  induction rest generalizing left with
  | nil => exact .pure left
  | cons link rest ih =>
      obtain ⟨op, e⟩ := link
      obtain ⟨he, hrest⟩ := List.forall_mem_cons.mp h
      exact he.settle.bind fun value => (Determined.refuseHandle _ value).bind fun right =>
        Determined.now.bind fun moment => ih hrest _

theorem Expr.determined_job (e : Expr) : Determined c still e.job := by
  induction e using Expr.induct generalizing still with
  | literal l => exact .pure l.value
  | name name => exact .nameValue name
  | array items ih =>
      exact (Expr.determined_jobOfItems fun e he => ih e he).bind fun values => .pure _
  | call function arguments ih =>
      refine (Determined.allResults fun still => Expr.forall_mem_jobs fun e he => ih e he).bind
        fun results => ?_
      exact (Determined.settleResults results).bind fun values => .callFunction function values
  | member base names ih => exact ih.bind fun value => .properties value names
  | chain first rest hfirst hrest =>
      by_cases hempty : rest.isEmpty = true
      · simpa only [Expr.job, hempty, if_true] using hfirst
      · simp only [Expr.job, hempty]
        refine hfirst.settle.bind fun left =>
          (Expr.determined_jobOfLinks (fun link h => hrest link h) left).bind fun value => ?_
        cases value with
        | none => exact .fail _
        | some v => exact .pure v
  | not operand ih =>
      exact ih.settle.bind fun value => Determined.now.bind fun moment => .pure _
  | unsupported => exact .fail _

theorem Expr.determined_jobOfArguments (arguments : List Expr) :
    Determined c still (Expr.jobOfArguments arguments) := by
  refine (Determined.allResults fun still => Expr.forall_mem_jobs fun e _ => ?_).bind
    fun results => .settleResults results
  exact e.determined_job

theorem Statement.determined_job (statement : Statement) : Determined c false statement.job := by
  cases statement with
  | assignment name value =>
      cases value with
      | none =>
          exact .changing (.ok ())
            (fun board => { board with bindings := board.bindings.erase name }) fun _ _ => rfl
      | some e =>
          refine e.determined_job.attempting fun result => ?_
          cases result with
          | ok v =>
              exact .changing (.ok ())
                (fun board => { board with bindings := board.bindings.insert name v })
                fun _ _ => rfl
          | error f =>
              exact .changing (.error f)
                (fun board => { board with bindings := board.bindings.erase name }) fun _ _ => rfl
  | plot arguments =>
      by_cases hempty : arguments.isEmpty = true
      · simp only [Statement.job, hempty, if_true]
        exact .fail _
      · simp only [Statement.job, hempty]
        exact (Expr.determined_jobOfArguments arguments).bind fun values =>
          (Determined.refuseHandles arguments values).bind fun values => .plotValues values
  | highlight arguments =>
      refine (Expr.determined_jobOfArguments arguments).bind fun values => ?_
      exact .changing (.ok ())
        (fun board => { board with highlights := board.highlights ++ [⟨values⟩] }) fun _ _ => rfl
  | expression e => exact .pure ()
  | unsupported rule => exact .fail _

end Scripts

end MetricScript
