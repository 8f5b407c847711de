import MetricScript.Proofs.Trace.Basic

/-! # Where a fetched series comes from

Series are kept by identifier and property name, while the metric behind a property depends on the
kind of the handle as well. So an access obtains the metric of the handle through which the property
of that identifier was first accessed, which need not be the metric of its own kind. -/

namespace MetricScript

open Run Trace

/-- The source that answers every call with the series given by a function. -/
def Source.steady (data : Call → Series) : Source := fun _ call => .series (data call)

/-- A setting in which a function gives the series. -/
def Setting.steady (data : Call → Series) (config : Config) (clock : Timestamp) : Setting :=
  { source := .steady data, config, clock }

theorem Setting.keepsSeries_steady (data : Call → Series) (config : Config) (clock : Timestamp) :
    (Setting.steady data config clock).keepsSeries = true := rfl

/-- The metric that a step asks for if it takes this property from a handle on this identifier. -/
def Step.endpoint? (id name : String) : Step → Option Endpoint
  | .access (.entity entity) property =>
    if entity.id = id ∧ property = name then entity.kind.endpoint? property else none
  | _ => none

/-- The metric asked for when a property of an identifier was first taken. -/
def firstEndpoint? (steps : List Step) (id name : String) : Option Endpoint :=
  steps.findSome? (Step.endpoint? id name)

theorem firstEndpoint?_append_singleton (steps : List Step) (step : Step) (id name : String) :
    firstEndpoint? (steps ++ [step]) id name =
      (firstEndpoint? steps id name).or (step.endpoint? id name) := by
  rw [firstEndpoint?, List.findSome?_append, List.findSome?_singleton]
  rfl

theorem Step.endpoint?_access_self {entity : Entity} {name : String} :
    (Step.access (.entity entity) name).endpoint? entity.id name = entity.kind.endpoint? name := by
  simp [Step.endpoint?]

theorem Step.endpoint?_access_of_ne {entity : Entity} {name id other : String}
    (h : ¬(entity.id = id ∧ name = other)) :
    (Step.access (.entity entity) name).endpoint? id other = none :=
  if_neg h

theorem access_of_firstEndpoint? {steps : List Step} {id name : String} {endpoint : Endpoint}
    (h : firstEndpoint? steps id name = some endpoint) :
    ∃ entity : Entity, .access (.entity entity) name ∈ steps ∧ entity.id = id ∧
      entity.kind.endpoint? name = some endpoint := by
  rcases List.exists_of_findSome?_eq_some h with ⟨step, hstep, hendpoint⟩
  unfold Step.endpoint? at hendpoint
  split at hendpoint
  · rename_i entity property
    split at hendpoint
    · rename_i hsame
      rcases hsame with ⟨hid, rfl⟩
      exact ⟨entity, hstep, hid, hendpoint⟩
    · cases hendpoint
  · cases hendpoint

/-! ## Keys -/

theorem Text.eq_of_append_dash {a b p q : List Char} (hp : '-' ∉ p) (hq : '-' ∉ q)
    (h : a ++ '-' :: p = b ++ '-' :: q) : a = b ∧ p = q := by
  rcases List.append_eq_append_iff.mp h with ⟨c, rfl, hc⟩ | ⟨c, rfl, hc⟩
  · cases c with
    | nil => simpa using hc
    | cons x c =>
        simp only [List.cons_append, List.cons.injEq] at hc
        exact absurd (hc.2 ▸ by simp) hp
  · cases c with
    | nil => simpa [eq_comm] using hc
    | cons x c =>
        simp only [List.cons_append, List.cons.injEq] at hc
        exact absurd (hc.2 ▸ by simp) hq

theorem EntityKind.dash_not_mem {kind : EntityKind} {name : String} {endpoint : Endpoint}
    (h : kind.endpoint? name = some endpoint) : '-' ∉ name.toList := by
  have hall : ∀ entry ∈ kind.metrics, '-' ∉ entry.1.toList := by
    cases kind <;> decide +kernel
  exact hall (name, endpoint) (NameMap.mem_of_lookup h)

/-- No property name of any kind has a dash, so the last dash of a key separates its parts. -/
theorem cacheKey_inj_of_endpoint? {kind kind' : EntityKind} {id id' p q : String}
    {endpoint endpoint' : Endpoint} (hp : kind.endpoint? p = some endpoint)
    (hq : kind'.endpoint? q = some endpoint') (h : cacheKey id p = cacheKey id' q) :
    id = id' ∧ p = q := by
  have hchars := congrArg String.toList h
  simp only [cacheKey, String.toList_append] at hchars
  obtain ⟨hid, hname⟩ := Text.eq_of_append_dash (EntityKind.dash_not_mem hp)
    (EntityKind.dash_not_mem hq) (by simpa using hchars)
  exact ⟨String.toList_inj.mp hid, String.toList_inj.mp hname⟩

/-! ## What is kept -/

/-- For every property that some kind has, what is kept is the metric of its first access. -/
def State.Recalls (data : Call → Series) (seen : List Step) (s : State) : Prop :=
  ∀ id name (kind : EntityKind) endpoint, kind.endpoint? name = some endpoint →
    s.cache.find? (cacheKey id name) =
      (firstEndpoint? seen id name).map fun first => data ⟨first, id⟩

namespace State.Recalls

variable {data : Call → Series} {seen : List Step} {s : State}

theorem initial : State.Recalls data [] {} := fun _ _ _ _ _ => rfl

/-- A step that asks for no metric new to the cache and leaves the cache as it is. -/
theorem still {step : Step} {t : State} (hs : s.Recalls data seen) (hcache : t.cache = s.cache)
    (hstep : ∀ id name, firstEndpoint? seen id name = none → step.endpoint? id name = none) :
    t.Recalls data (seen ++ [step]) := by
  intro id name kind endpoint hmapped
  rw [hcache, hs id name kind endpoint hmapped, firstEndpoint?_append_singleton]
  cases hfirst : firstEndpoint? seen id name with
  | none => simp [hstep id name hfirst]
  | some first => rfl

section Steps

variable (config : Config) (clock : Timestamp)

/-- An access obtains the metric of the first access to the property of that identifier, its own if
there was none. -/
theorem access (hs : s.Recalls data seen) {entity : Entity} {name : String} {endpoint : Endpoint}
    (hmapped : entity.kind.endpoint? name = some endpoint) :
    ∃ s', property (.entity entity) name (.steady data config clock) s =
        (.ok (.series (data ⟨(firstEndpoint? seen entity.id name).getD endpoint, entity.id⟩)), s') ∧
      s'.Recalls data (seen ++ [.access (.entity entity) name]) := by
  have hfound := hs entity.id name entity.kind endpoint hmapped
  have hkept : s.kept? (.steady data config clock) (cacheKey entity.id name) =
      (firstEndpoint? seen entity.id name).map fun first => data ⟨first, entity.id⟩ := by
    exact hfound
  cases hfirst : firstEndpoint? seen entity.id name with
  | some first =>
      rw [hfirst] at hkept
      refine ⟨s, entityProperty_of_kept hmapped hkept, hs.still rfl fun id other hnone => ?_⟩
      refine Step.endpoint?_access_of_ne ?_
      rintro ⟨rfl, rfl⟩
      simp [hfirst] at hnone
  | none =>
      rw [hfirst] at hkept
      have hmissing := entityProperty_of_missing hmapped hkept
      have hanswer : (s.fetch (.steady data config clock) entity name endpoint).answer =
          .series (data ⟨endpoint, entity.id⟩) := rfl
      simp only [hanswer] at hmissing
      refine ⟨_, hmissing, fun id other kind endpoint' hmapped' => ?_⟩
      rw [State.keeping, if_pos (Setting.keepsSeries_steady data config clock),
        firstEndpoint?_append_singleton]
      by_cases hsame : entity.id = id ∧ name = other
      · rcases hsame with ⟨rfl, rfl⟩
        rw [NameMap.find?_insert_self, hfirst, Step.endpoint?_access_self, hmapped]
        rfl
      · have hne : cacheKey id other ≠ cacheKey entity.id name := by
          intro hkey
          rcases cacheKey_inj_of_endpoint? hmapped' hmapped hkey with ⟨hid, hname⟩
          exact hsame ⟨hid.symm, hname.symm⟩
        rw [NameMap.find?_insert_of_ne _ hne, Step.endpoint?_access_of_ne hsame, Option.or_none]
        exact hs id other kind endpoint' hmapped'

theorem step (hs : s.Recalls data seen) (step : Step) :
    (step.apply (.steady data config clock) s).Recalls data (seen ++ [step]) := by
  cases step with
  | access base name =>
      have hplain (h : ∀ entity, base ≠ .entity entity) :
          ((Step.access base name).apply (.steady data config clock) s).Recalls data
            (seen ++ [.access base name]) := by
        refine hs.still (by simp only [Step.apply, property_of_plain h]) fun id other _ => ?_
        cases base with
        | entity entity => exact absurd rfl (h entity)
        | _ => rfl
      cases base with
      | entity entity =>
          cases hmapped : entity.kind.endpoint? name with
          | some endpoint =>
              rcases hs.access config clock hmapped with ⟨s', haccess, hs'⟩
              rw [Step.apply, haccess]
              exact hs'
          | none =>
              have hend : property (.entity entity) name (.steady data config clock) s =
                  (.error (.failed (.noMetric name entity)), s) :=
                entityProperty_of_unmapped hmapped
              refine hs.still (by simp only [Step.apply, hend]) fun id other _ => ?_
              simp [Step.endpoint?, hmapped]
      | scalar x => exact hplain (by simp)
      | series t => exact hplain (by simp)
      | list items => exact hplain (by simp)
  | _ => exact hs.still rfl fun _ _ _ => rfl

/-- What is kept after a row of steps. -/
theorem replay (hs : s.Recalls data seen) (steps : List Step) :
    (replay (.steady data config clock) s steps).Recalls data (seen ++ steps) := by
  induction steps generalizing s seen with
  | nil => simpa using hs
  | cons step rest ih => simpa using ih (hs.step config clock step)

end Steps

end State.Recalls

/-! ## Two kinds, one key -/

/-- The expression that takes a property from a handle. -/
def Expr.reading (kind : EntityKind) (id name : String) : Expr :=
  .member (.call (Named.name kind) [.literal (.string id)]) [name]

section Reading

variable {setting : Setting} {s s' : State} {kind : EntityKind} {id name : String}

theorem callResult_construct (kind : EntityKind) (id : String) (setting : Setting) :
    callResult setting (Named.name kind) [some (.string id)] = .ok (.entity ⟨kind, id⟩) := by
  have hname : (Named.ofFoldedName? (Named.name kind) : Option EntityKind) = some kind := by
    cases kind <;> decide +kernel
  rw [callResult, hname]
  rfl

theorem Expr.eval_construct :
    (Expr.call (Named.name kind) [.literal (.string id)]).eval setting s =
      (.ok (.entity ⟨kind, id⟩), s) := by
  have h := callFunction_apply (Named.name kind) [some (.string id)] setting s
  rw [callResult_construct] at h
  exact h

theorem Expr.eval_reading :
    (Expr.reading kind id name).eval setting s = property (.entity ⟨kind, id⟩) name setting s := by
  have hproperties (base : Value) : properties base [name] = property base name :=
    bind_pure (property base name)
  rw [Expr.reading, Expr.eval, bind_apply_ok Expr.eval_construct, hproperties]

theorem Expr.trace_reading :
    (Expr.reading kind id name).trace setting s =
      [.call (Named.name kind) [some (.string id)], .access (.entity ⟨kind, id⟩) name] := by
  have hlast : propertiesTrace (.entity ⟨kind, id⟩) [name] setting s =
      [.access (.entity ⟨kind, id⟩) name] := by
    simp only [propertiesTrace, Trace.andThen, row]
    split <;> rfl
  simp only [Expr.reading, Expr.trace, Trace.andThen, Expr.eval_construct, hlast]
  rfl

theorem Expr.prefix_statementsTrace (e : Expr) (name : String) (rest : List Statement)
    (setting : Setting) (s : State) :
    e.trace setting s <+: statementsTrace (.assignment name (some e) :: rest) setting s := by
  simp only [statementsTrace, Statement.trace, Trace.andThen, Trace.containing, List.append_assoc]
  exact List.prefix_append _ _

/-- The steps of statements of which the first binds a variable without failure. -/
theorem statementsTrace_assignment_of_ok {e : Expr} {v : Value} {rest : List Statement}
    (h : e.eval setting s = (.ok v, s')) :
    statementsTrace (.assignment name (some e) :: rest) setting s =
      e.trace setting s ++ [.bind name v] ++
        statementsTrace rest setting { s' with bindings := s'.bindings.insert name v } := by
  have hexec : (Statement.assignment name (some e)).exec setting s =
      (.ok (), { s' with bindings := s'.bindings.insert name v }) :=
    bind_apply_ok (attempt_of_ok h)
  have htrace : (Statement.assignment name (some e)).trace setting s =
      e.trace setting s ++ [.bind name v] := by
    simp only [Statement.trace, Trace.andThen, attempt_of_ok h]
    rfl
  simp only [statementsTrace, Trace.andThen, Trace.containing, contain, hexec, htrace,
    List.append_nil]

end Reading

/-- A script that takes the same property of the same identifier by way of two kinds. -/
def Script.readingTwice (first second : EntityKind) (id name : String) : Script where
  statements :=
    [.assignment "a" (some (.reading first id name)),
      .assignment "b" (some (.reading second id name))]

/-- The steps that are done before the second access of such a script. -/
def Script.beforeSecond (first second : EntityKind) (id name : String) (s : Series) : List Step :=
  [.call (Named.name first) [some (.string id)], .access (.entity ⟨first, id⟩) name,
    .bind "a" (.series s), .call (Named.name second) [some (.string id)]]

theorem Script.prefix_trace_readingTwice {first second : EntityKind} {id name : String}
    {endpoint : Endpoint} (hmapped : first.endpoint? name = some endpoint) (data : Call → Series)
    (config : Config) (clock : Timestamp) :
    beforeSecond first second id name (data ⟨endpoint, id⟩) ++
        [.access (.entity ⟨second, id⟩) name] <+:
      (readingTwice first second id name).trace (.steady data config clock) {} := by
  have hrecalls : State.Recalls data [] {} := .initial
  obtain ⟨s', haccess, -⟩ :
      ∃ s', property (.entity ⟨first, id⟩) name (.steady data config clock) {} =
        (.ok (.series (data ⟨endpoint, id⟩)), s') ∧ _ := hrecalls.access config clock hmapped
  have hfirst := Expr.eval_reading.trans haccess
  rw [Script.trace, readingTwice, statementsTrace_assignment_of_ok hfirst, Expr.trace_reading]
  have hrest := (Expr.reading second id name).prefix_statementsTrace "b" []
    (.steady data config clock)
    { s' with bindings := s'.bindings.insert "a" (.series (data ⟨endpoint, id⟩)) }
  rw [Expr.trace_reading] at hrest
  have hsplit (s : Series) : beforeSecond first second id name s ++
      [.access (.entity ⟨second, id⟩) name] =
      [.call (Named.name first) [some (.string id)], .access (.entity ⟨first, id⟩) name] ++
        [.bind "a" (.series s)] ++
        [.call (Named.name second) [some (.string id)], .access (.entity ⟨second, id⟩) name] := rfl
  rw [hsplit]
  exact (List.prefix_append_right_inj _).mpr hrest

/-- The second access obtains what the first one did. -/
theorem Script.second_reading_gives_first {first second : EntityKind} {id name : String}
    {endpoint endpoint' : Endpoint} (hfirst : first.endpoint? name = some endpoint)
    (hsecond : second.endpoint? name = some endpoint') (data : Call → Series) (config : Config)
    (clock : Timestamp) (s : Series) :
    (property (.entity ⟨second, id⟩) name (.steady data config clock)
      (replay (.steady data config clock) {} (beforeSecond first second id name s))).1 =
        .ok (.series (data ⟨endpoint, id⟩)) := by
  have hrecalls : (replay (.steady data config clock) {}
      (beforeSecond first second id name s)).Recalls data (beforeSecond first second id name s) :=
    State.Recalls.initial.replay config clock _
  have hseen : firstEndpoint? (beforeSecond first second id name s) id name = some endpoint := by
    have haccess : (Step.access (.entity ⟨first, id⟩) name).endpoint? id name = some endpoint :=
      Step.endpoint?_access_self.trans hfirst
    simp only [firstEndpoint?, beforeSecond, List.findSome?_cons, haccess]
    rfl
  have hentity : (Entity.mk second id).kind.endpoint? name = some endpoint' := hsecond
  rcases hrecalls.access config clock hentity with ⟨s', haccess, -⟩
  rw [haccess, hseen]
  rfl

/-- A series that tells the total value locked in a chain from all other metrics. -/
def Call.toldApart (call : Call) : Series :=
  .single (if call.endpoint = .chainTvl then 2 else 1) none

/-! ## Accesses of a run -/

/-- Asked of a source that answers by a function, a property of a handle gives the metric by which
that property of that identifier was first accessed in the run, and the run goes on from there. That
is the metric of its own kind unless the property was accessed before by way of a kind with another
metric behind it. -/
theorem Script.access_gives_first_metric (script : Script) (data : Call → Series) (config : Config)
    (clock : Timestamp) (done more : List Step) (entity : Entity) (name : String)
    (endpoint : Endpoint) :
    script.trace (.steady data config clock) {} =
      done ++ .access (.entity entity) name :: more →
    entity.kind.endpoint? name = some endpoint →
    ∃ first s', property (.entity entity) name (.steady data config clock)
        (replay (.steady data config clock) {} done) =
          (.ok (.series (data ⟨first, entity.id⟩)), s') ∧
      (script.exec (.steady data config clock) {}).2 =
        replay (.steady data config clock) s' more ∧
      (firstEndpoint? done entity.id name).getD endpoint = first ∧
      ((∀ other e, .access (.entity other) name ∈ done → other.id = entity.id →
        other.kind.endpoint? name = some e → e = endpoint) → first = endpoint) := by
  intro hrun hmapped
  have hrecalls : (replay (.steady data config clock) {} done).Recalls data done :=
    State.Recalls.initial.replay config clock done
  rcases hrecalls.access config clock hmapped with ⟨s', haccess, -⟩
  have hend : (script.exec (.steady data config clock) {}).2 =
      replay (.steady data config clock) s' more := by
    rw [← script.traces_exec, hrun, replay_append, replay_cons, Step.apply, haccess]
  refine ⟨_, s', haccess, hend, rfl, fun hsame => ?_⟩
  cases hfirst : firstEndpoint? done entity.id name with
  | none => rfl
  | some first =>
      rcases access_of_firstEndpoint? hfirst with ⟨other, hother, hid, hendpoint⟩
      exact hsame other first hother hid hendpoint

theorem Script.access_gives_first_metric_readingTwice :
    ∃ more s', (readingTwice .protocol .chain "x" "tvl").trace (.steady Call.toldApart {} 0) {} =
        beforeSecond .protocol .chain "x" "tvl" (Call.toldApart ⟨.protocolTvl, "x"⟩) ++
          .access (.entity ⟨.chain, "x"⟩) "tvl" :: more ∧
      property (.entity ⟨.chain, "x"⟩) "tvl" (.steady Call.toldApart {} 0)
        (replay (.steady Call.toldApart {} 0) {} (beforeSecond .protocol .chain "x" "tvl"
          (Call.toldApart ⟨.protocolTvl, "x"⟩))) =
        (.ok (.series (Call.toldApart ⟨.protocolTvl, "x"⟩)), s') ∧
      ((readingTwice .protocol .chain "x" "tvl").exec (.steady Call.toldApart {} 0) {}).2 =
        replay (.steady Call.toldApart {} 0) s' more := by
  have hprotocol : EntityKind.protocol.endpoint? "tvl" = some .protocolTvl := by decide
  have hchain : EntityKind.chain.endpoint? "tvl" = some .chainTvl := by decide
  obtain ⟨more, hmore⟩ := prefix_trace_readingTwice hprotocol Call.toldApart {} 0
  have hrun : (readingTwice .protocol .chain "x" "tvl").trace (.steady Call.toldApart {} 0) {} =
      beforeSecond .protocol .chain "x" "tvl" (Call.toldApart ⟨.protocolTvl, "x"⟩) ++
        .access (.entity ⟨.chain, "x"⟩) "tvl" :: more := by
    rw [← hmore, List.append_assoc]
    rfl
  obtain ⟨first, s', haccess, hend, hfirst, -⟩ :=
    access_gives_first_metric _ Call.toldApart {} 0 _ more ⟨.chain, "x"⟩ "tvl" .chainTvl hrun hchain
  have hseen : first = .protocolTvl := hfirst.symm.trans (by decide)
  exact ⟨more, s', hrun, by rw [haccess, hseen], hend⟩

/-- An access need not obtain the metric of its own kind: after a protocol, a chain of the same name
gives the metric of the protocol. -/
theorem Script.access_not_own_metric :
    ¬ ∀ (script : Script) (data : Call → Series) (config : Config) (clock : Timestamp)
      (done : List Step) (entity : Entity) (name : String) (endpoint : Endpoint),
      done ++ [.access (.entity entity) name] <+: script.trace (.steady data config clock) {} →
      entity.kind.endpoint? name = some endpoint →
      (property (.entity entity) name (.steady data config clock)
        (replay (.steady data config clock) {} done)).1 =
          .ok (.series (data ⟨endpoint, entity.id⟩)) := by
  intro h
  have hprotocol : EntityKind.protocol.endpoint? "tvl" = some .protocolTvl := by decide
  have hchain : EntityKind.chain.endpoint? "tvl" = some .chainTvl := by decide
  have hown := h (readingTwice .protocol .chain "x" "tvl") Call.toldApart {} 0
    (beforeSecond .protocol .chain "x" "tvl" (Call.toldApart ⟨.protocolTvl, "x"⟩)) ⟨.chain, "x"⟩
    "tvl" .chainTvl (prefix_trace_readingTwice hprotocol Call.toldApart {} 0) hchain
  rw [second_reading_gives_first hprotocol hchain] at hown
  have htimes := congrArg (fun r => (r.toOption.bind Value.series?).map Series.times) hown
  revert htimes
  decide

end MetricScript
