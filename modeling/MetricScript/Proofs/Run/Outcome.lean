import MetricScript.Run.Statement

/-! # How the computations within a run end

Read off from how their parts end. The elementary computations are settled here once, so that later
proofs need not look into them. -/

namespace MetricScript

/-- The failure of a result, if it is one. -/
def failureOf? {α : Type} : Except Failure α → Option Failure
  | .ok _ => none
  | .error f => some f

/-- A state with more failures recorded. -/
def State.recording (s : State) (failures : List Failure) : State :=
  { s with failures := s.failures ++ failures }

@[simp] theorem State.recording_nil (s : State) : s.recording [] = s := by
  simp [State.recording]

@[simp] theorem State.recording_recording (s : State) (first rest : List Failure) :
    (s.recording first).recording rest = s.recording (first ++ rest) := by
  simp [State.recording]

@[simp] theorem State.failures_recording (s : State) (failures : List Failure) :
    (s.recording failures).failures = s.failures ++ failures := rfl

/-- The series kept under a key, if series are kept at all. -/
def State.kept? (s : State) (setting : Setting) (key : String) : Option Series :=
  if setting.keepsSeries then s.cache.find? key else none

/-- A state in which the source was asked once more. -/
def State.asked (s : State) (fetch : Fetch) : State :=
  { s with fetches := s.fetches ++ [fetch] }

/-- A state in which a series is kept under a key, if series are kept at all. -/
def State.keeping (s : State) (setting : Setting) (key : String) (series : Series) : State :=
  if setting.keepsSeries then { s with cache := s.cache.insert key series } else s

theorem State.find?_cache_keeping (s : State) (setting : Setting) (key other : String)
    (series : Series) :
    (s.keeping setting key series).cache.find? other =
      if setting.keepsSeries ∧ key = other then some series else s.cache.find? other := by
  by_cases hkeeps : setting.keepsSeries = true
  · by_cases hkey : key = other
    · subst hkey
      simp [State.keeping, hkeeps]
    · simp [State.keeping, hkeeps, hkey, NameMap.find?_insert_of_ne _ (Ne.symm hkey)]
  · simp [State.keeping, hkeeps]

/-- Keeping a series changes nothing but what is kept. -/
theorem State.exists_keeping_eq (s : State) (setting : Setting) (key : String) (series : Series) :
    ∃ cache, s.keeping setting key series = { s with cache := cache } := by
  unfold State.keeping
  split
  · exact ⟨_, rfl⟩
  · exact ⟨s.cache, rfl⟩

/-- The call to the source for a property of a handle, with the answer that it gets in a state. -/
def State.fetch (s : State) (setting : Setting) (entity : Entity) (property : String)
    (endpoint : Endpoint) : Fetch :=
  ⟨entity, property, endpoint, setting.source s.calls ⟨endpoint, entity.id⟩⟩

namespace Run

variable {α β : Type} {setting : Setting} {s s' : State}

/-! ## Sequences -/

theorem bind_eq_ok_iff {x : Run α} {next : α → Run β} {b : β} :
    (x >>= next) setting s = (.ok b, s') ↔
      ∃ a t, x setting s = (.ok a, t) ∧ next a setting t = (.ok b, s') := by
  rcases apply_cases x setting s with ⟨a, t, h⟩ | ⟨stop, t, h⟩
  · rw [bind_apply_ok h]
    refine ⟨fun hnext => ⟨a, t, h, hnext⟩, ?_⟩
    rintro ⟨a', t', hx, hnext⟩
    obtain ⟨rfl, rfl⟩ : a = a' ∧ t = t' := by simpa [h] using hx
    exact hnext
  · rw [bind_apply_error h]
    simp [h]

theorem bind_eq_error_iff {x : Run α} {next : α → Run β} {stop : Stop} :
    (x >>= next) setting s = (.error stop, s') ↔
      x setting s = (.error stop, s') ∨
        ∃ a t, x setting s = (.ok a, t) ∧ next a setting t = (.error stop, s') := by
  rcases apply_cases x setting s with ⟨a, t, h⟩ | ⟨other, t, h⟩
  · rw [bind_apply_ok h]
    refine ⟨fun hnext => Or.inr ⟨a, t, h, hnext⟩, ?_⟩
    rintro (hx | ⟨a', t', hx, hnext⟩)
    · simp [h] at hx
    · obtain ⟨rfl, rfl⟩ : a = a' ∧ t = t' := by simpa [h] using hx
      exact hnext
  · rw [bind_apply_error h]
    simp [h]

/-- What follows needs to agree only on the values that there can be. -/
theorem bind_apply_congr {x : Run α} {f g : α → Run β}
    (h : ∀ a t, x setting s = (.ok a, t) → f a setting t = g a setting t) :
    (x >>= f) setting s = (x >>= g) setting s := by
  rcases apply_cases x setting s with ⟨a, t, hx⟩ | ⟨stop, t, hx⟩
  · rw [bind_apply_ok hx, bind_apply_ok hx, h a t hx]
  · rw [bind_apply_error hx, bind_apply_error hx]

/-! ## Failures turned into results -/

theorem attempt_of_ok {x : Run α} {a : α} (h : x setting s = (.ok a, s')) :
    attempt x setting s = (.ok (.ok a), s') := by
  simp [attempt, h]

theorem attempt_of_failed {x : Run α} {f : Failure} (h : x setting s = (.error (.failed f), s')) :
    attempt x setting s = (.ok (.error f), s') := by
  simp [attempt, h]

theorem attempt_of_crashed {x : Run α} {message : Option String}
    (h : x setting s = (.error (.crashed message), s')) :
    attempt x setting s = (.error (.crashed message), s') := by
  simp [attempt, h]

theorem attempt_state (x : Run α) (setting : Setting) (s : State) :
    (attempt x setting s).2 = (x setting s).2 := by
  rcases h : x setting s with ⟨(f | message) | a, t⟩ <;> simp [attempt, h]

theorem record_apply (f : Failure) (setting : Setting) (s : State) :
    record f setting s = (.ok (), s.recording [f]) := rfl

theorem settle_of_ok {x : Run α} {a : α} (h : x setting s = (.ok a, s')) :
    settle x setting s = (.ok (some a), s') :=
  bind_apply_ok (attempt_of_ok h)

theorem settle_of_failed {x : Run α} {f : Failure} (h : x setting s = (.error (.failed f), s')) :
    settle x setting s = (.ok none, s'.recording [f]) :=
  bind_apply_ok (attempt_of_failed h)

theorem settle_of_crashed {x : Run α} {message : Option String}
    (h : x setting s = (.error (.crashed message), s')) :
    settle x setting s = (.error (.crashed message), s') :=
  bind_apply_error (attempt_of_crashed h)

theorem mapError_eq_ok_iff {r : Except Failure α} {a : α} :
    r.mapError Stop.failed = .ok a ↔ r = .ok a := by
  cases r with
  | ok b => exact ⟨fun h => by cases h; rfl, fun h => by cases h; rfl⟩
  | error f => exact ⟨nofun, nofun⟩

theorem mapError_eq_failed_iff {r : Except Failure α} {f : Failure} :
    r.mapError Stop.failed = .error (.failed f) ↔ r = .error f := by
  cases r with
  | ok b => exact ⟨nofun, nofun⟩
  | error g => exact ⟨fun h => by cases h; rfl, fun h => by cases h; rfl⟩

theorem ofExcept_apply (r : Except Failure α) (setting : Setting) (s : State) :
    ofExcept r setting s = (r.mapError Stop.failed, s) := by
  cases r <;> rfl

theorem settleResult_apply (r : Except Failure α) (setting : Setting) (s : State) :
    settleResult r setting s = (.ok r.toOption, s.recording (failureOf? r).toList) := by
  cases r with
  | ok a => simp [settleResult, failureOf?, Except.toOption, pure_apply]
  | error f => rfl

theorem attempt_cases {x : Run α} {r : Except Failure α} (h : attempt x setting s = (.ok r, s')) :
    (∃ a, x setting s = (.ok a, s') ∧ r = .ok a) ∨
      ∃ f, x setting s = (.error (.failed f), s') ∧ r = .error f := by
  rcases hx : x setting s with ⟨(f | message) | a, t⟩
  · rw [attempt_of_failed hx] at h
    cases h
    exact Or.inr ⟨f, rfl, rfl⟩
  · rw [attempt_of_crashed hx] at h
    cases h
  · rw [attempt_of_ok hx] at h
    cases h
    exact Or.inl ⟨a, rfl, rfl⟩

/-- A settled computation had a value, or it failed and the failure was recorded. -/
theorem settle_cases {x : Run α} {o : Option α} (h : settle x setting s = (.ok o, s')) :
    (∃ a, x setting s = (.ok a, s') ∧ o = some a) ∨
      ∃ f t, x setting s = (.error (.failed f), t) ∧ o = none ∧ s' = t.recording [f] := by
  rcases bind_eq_ok_iff.mp h with ⟨r, t, hr, hsettle⟩
  rw [settleResult_apply] at hsettle
  cases hsettle
  rcases attempt_cases hr with ⟨a, hx, rfl⟩ | ⟨f, hx, rfl⟩
  · exact Or.inl ⟨a, by simpa [failureOf?] using hx, rfl⟩
  · exact Or.inr ⟨f, t, hx, rfl, rfl⟩

theorem settleResults_apply (results : List (Except Failure Value)) (setting : Setting)
    (s : State) :
    settleResults results setting s =
      (.ok (results.map Except.toOption), s.recording (results.filterMap failureOf?)) := by
  induction results generalizing s with
  | nil => simp [settleResults, pure_apply]
  | cons r rest ih =>
      have hrest := ih (s.recording (failureOf? r).toList)
      rw [settleResults, bind_apply_ok (settleResult_apply r setting s), bind_apply_ok hrest]
      cases r <;> simp [pure_apply, failureOf?, List.filterMap_cons]

/-! ## Elementary computations -/

theorem nameValue_apply (name : String) (setting : Setting) (s : State) :
    nameValue name setting s =
      (if name = "null" then .ok .null
        else match s.bindings.find? name with
          | some v => .ok v
          | none => .error (.failed (.undefinedVariable name)), s) := by
  unfold nameValue
  split
  · rfl
  · change (match s.bindings.find? name with
      | some v => pure v
      | none => fail (.undefinedVariable name) : Run Value) setting s = _
    cases s.bindings.find? name <;> rfl

/-- What a call of a function with its arguments amounts to. -/
def callResult (setting : Setting) (function : String) (arguments : List (Option Value)) :
    Except Failure Value :=
  match (Named.ofFoldedName? function : Option EntityKind) with
  | some kind => kind.construct arguments
  | none =>
    match (Named.ofFoldedName? function : Option Builtin) with
    | some b => b.apply arguments setting.config.defaultWindow setting.now
    | none => .error (.unknownFunction function)

theorem callFunction_apply (function : String) (arguments : List (Option Value))
    (setting : Setting) (s : State) :
    callFunction function arguments setting s =
      ((callResult setting function arguments).mapError Stop.failed, s) := by
  unfold callFunction callResult
  cases (Named.ofFoldedName? function : Option EntityKind) with
  | some kind => exact ofExcept_apply _ setting s
  | none =>
      cases (Named.ofFoldedName? function : Option Builtin) with
      | some b => exact ofExcept_apply _ setting s
      | none => rfl

/-- The complaint about a handle where a value is needed. -/
def handleFailure? (name : Option String) : Option Value → Option Failure
  | some (.entity entity) => some (.handleAsValue name entity)
  | _ => none

/-- What is left of an operand or argument that must not be a handle. -/
def withoutHandle : Option Value → Option Value
  | some (.entity _) => none
  | value => value

theorem refuseHandle_apply (name : Option String) (value : Option Value) (setting : Setting)
    (s : State) :
    refuseHandle name value setting s =
      (.ok (withoutHandle value), s.recording (handleFailure? name value).toList) := by
  rcases value with _ | (_ | _ | _ | _) <;>
    simp [refuseHandle, withoutHandle, handleFailure?, pure_apply]
  rfl

theorem refuseHandles_apply (arguments : List Expr) (values : List (Option Value))
    (setting : Setting) (s : State) :
    refuseHandles arguments values setting s =
      (.ok (List.zipWith (fun _ => withoutHandle) arguments values),
        s.recording
          ((List.zipWith (fun e => handleFailure? e.variable?) arguments values).filterMap
            id)) := by
  induction arguments generalizing values s with
  | nil => simp [refuseHandles, pure_apply]
  | cons e arguments ih =>
      cases values with
      | nil => simp [refuseHandles, pure_apply]
      | cons value values =>
          have hrest := ih values (s.recording (handleFailure? e.variable? value).toList)
          rw [refuseHandles, bind_apply_ok (refuseHandle_apply _ value setting s),
            bind_apply_ok hrest]
          cases h : handleFailure? e.variable? value <;> simp [pure_apply, h]

/-! ## Plots -/

/-- The complaint about a text that asks for a chart type. -/
def chartTypeFailure? (text : String) : Option Failure :=
  if (Named.ofName? text : Option ChartType).isSome then none else some (.unknownChartType text)

theorem chartTypeOf_apply (text : Option String) (setting : Setting) (s : State) :
    chartTypeOf text setting s =
      (.ok (text.map fun name => (Named.ofName? name).getD .area),
        s.recording (text.bind chartTypeFailure?).toList) := by
  cases text with
  | none => simp [chartTypeOf, pure_apply]
  | some text =>
      unfold chartTypeOf
      cases h : (Named.ofName? text : Option ChartType) with
      | some chartType => simp [chartTypeFailure?, h, pure_apply]
      | none =>
          simp only [chartTypeFailure?, h, Option.bind_some, Option.map_some, Option.getD_none]
          rfl

/-- The complaint about a text that asks for a color. -/
def colorFailure? (text : String) : Option Failure :=
  if Color.isValid text then none else some (.invalidColor text)

theorem colorOf_apply (text : Option String) (setting : Setting) (s : State) :
    colorOf text setting s =
      (.ok (text.filter Color.isValid), s.recording (text.bind colorFailure?).toList) := by
  cases text with
  | none => simp [colorOf, pure_apply]
  | some text =>
      by_cases h : Color.isValid text
      · simp [colorOf, colorFailure?, Option.filter, h, pure_apply]
      · simp only [colorOf, colorFailure?, Option.filter, h, Option.bind_some]
        rfl

/-- What plotting values draws, with what is plotted set apart. -/
def plotOf (values : List (Option Value)) (series : Value) : Plot :=
  let text (i : Nat) := (Builtin.argument? values i).bind Value.string?
  { series
    label := text 1
    chartType := (text 2).map fun name => (Named.ofName? name).getD .area
    color := (text 3).filter Color.isValid
    dashed := (Builtin.argument? values 4).map Value.truthy
    group := Builtin.argument? values 5 }

/-- What is recorded while a plot is styled. -/
def styleFailures (values : List (Option Value)) : List Failure :=
  let text (i : Nat) := (Builtin.argument? values i).bind Value.string?
  ((text 2).bind chartTypeFailure?).toList ++ ((text 3).bind colorFailure?).toList

theorem plotValues_of_missing {values : List (Option Value)}
    (h : Builtin.argument? values 0 = none) (setting : Setting) (s : State) :
    plotValues values setting s = (.ok (), s) := by
  simp [plotValues, h, pure_apply]

theorem plotValues_of_empty {values : List (Option Value)} {series : Value}
    (h : Builtin.argument? values 0 = some series) (he : series.isEmptyCollection = true)
    (setting : Setting) (s : State) :
    plotValues values setting s = (.error (.failed .emptyPlot), s) := by
  simp [plotValues, h, he, fail]

theorem plotValues_of_drawn {values : List (Option Value)} {series : Value}
    (h : Builtin.argument? values 0 = some series) (he : series.isEmptyCollection = false)
    (setting : Setting) (s : State) :
    plotValues values setting s =
      (.ok (), { s.recording (styleFailures values) with
        plots := s.plots ++ [plotOf values series] }) := by
  simp only [plotValues, h, he, Bool.false_eq_true, if_false]
  rw [bind_apply_ok (chartTypeOf_apply _ setting s), bind_apply_ok (colorOf_apply _ setting _),
    State.recording_recording]
  rfl

/-! ## Properties -/

theorem kept?_apply (key : String) (setting : Setting) (s : State) :
    kept? key setting s = (.ok (s.kept? setting key), s) := rfl

theorem keptOrFetched_of_kept {key : String} {fetch : Run Answer} {series : Series}
    (hk : s.kept? setting key = some series) :
    keptOrFetched key fetch setting s = (.ok (.ok series), s) := by
  have hfound := kept?_apply key setting s
  rw [hk] at hfound
  exact bind_apply_ok hfound

/-- What comes of an answer to a fetch for a key. -/
def received (setting : Setting) (key : String) (s : State) :
    Answer → Except Stop (Except FetchError Series) × State
  | .series series => (.ok (.ok series), s.keeping setting key series)
  | .error e => (.ok (.error e), s)
  | .crash message => (.error (.crashed message), s)

theorem keptOrFetched_of_missing {key : String} {fetch : Run Answer} {answer : Answer}
    (hk : s.kept? setting key = none) (hfetch : fetch setting s = (.ok answer, s')) :
    keptOrFetched key fetch setting s = received setting key s' answer := by
  have hfound := kept?_apply key setting s
  rw [hk] at hfound
  have hmiss : keptOrFetched key fetch setting s =
      (fetch >>= fun answer => match answer with
        | .series series => do
            keep key series
            pure (.ok series)
        | .error e => pure (.error e)
        | .crash message => crash message) setting s :=
    bind_apply_ok hfound
  rw [hmiss, bind_apply_ok hfetch]
  cases answer <;> rfl

theorem entityProperty_of_unmapped {entity : Entity} {name : String}
    (h : entity.kind.endpoint? name = none) :
    entityProperty entity name setting s = (.error (.failed (.noMetric name entity)), s) := by
  simp [entityProperty, h, fail]

theorem entityProperty_of_kept {entity : Entity} {name : String} {endpoint : Endpoint}
    {series : Series} (h : entity.kind.endpoint? name = some endpoint)
    (hk : s.kept? setting (cacheKey entity.id name) = some series) :
    entityProperty entity name setting s = (.ok (.series series), s) := by
  simp only [entityProperty, h]
  exact bind_apply_ok (keptOrFetched_of_kept hk)

/-- A property that is not kept is fetched, and kept if a series comes back. -/
theorem entityProperty_of_missing {entity : Entity} {name : String} {endpoint : Endpoint}
    (h : entity.kind.endpoint? name = some endpoint)
    (hk : s.kept? setting (cacheKey entity.id name) = none) :
    entityProperty entity name setting s =
      match (s.fetch setting entity name endpoint).answer with
      | .series series => (.ok (.series series),
          (s.asked (s.fetch setting entity name endpoint)).keeping setting
            (cacheKey entity.id name) series)
      | .error e => (.error (.failed (.fetch entity name e)),
          s.asked (s.fetch setting entity name endpoint))
      | .crash message => (.error (.crashed message),
          s.asked (s.fetch setting entity name endpoint)) := by
  have hask : ask entity name endpoint setting s =
      (.ok (s.fetch setting entity name endpoint).answer,
        s.asked (s.fetch setting entity name endpoint)) := rfl
  have hmiss := keptOrFetched_of_missing hk hask
  simp only [entityProperty, h]
  cases hanswer : (s.fetch setting entity name endpoint).answer with
  | series series =>
      rw [hanswer] at hmiss
      exact bind_apply_ok hmiss
  | error e =>
      rw [hanswer] at hmiss
      exact bind_apply_ok hmiss
  | crash message =>
      rw [hanswer] at hmiss
      exact bind_apply_error hmiss

/-- A property that is not kept is asked for, whatever comes back. -/
theorem fetches_property_of_missing {entity : Entity} {name : String} {endpoint : Endpoint}
    (h : entity.kind.endpoint? name = some endpoint)
    (hk : s.kept? setting (cacheKey entity.id name) = none) :
    (property (.entity entity) name setting s).2.fetches =
      s.fetches ++ [s.fetch setting entity name endpoint] := by
  rw [property, entityProperty_of_missing h hk]
  cases (s.fetch setting entity name endpoint).answer with
  | series series =>
      simp only [State.keeping, State.asked]
      split <;> rfl
  | error e => rfl
  | crash message => rfl

/-- The result of taking a property of a value that is no handle. -/
def plainProperty (base : Value) (name : String) : Except Failure Value :=
  match base with
  | .series s =>
    if name = "length" then .ok (.number s.length.toFloat) else .error (.noProperty name)
  | .list items =>
    if name = "length" then .ok (.number items.length.toFloat)
    else
      match (Decimal.position? name).bind fun i => items[i]? with
      | some item => .ok (item.getD .null)
      | none => .error (.noProperty name)
  | _ => .error (.noProperty name)

theorem property_of_plain {base : Value} (h : ∀ entity, base ≠ .entity entity) (name : String)
    (setting : Setting) (s : State) :
    property base name setting s = ((plainProperty base name).mapError Stop.failed, s) := by
  cases base with
  | scalar x => rfl
  | series t =>
      simp only [property, plainProperty]
      split <;> rfl
  | entity entity => exact absurd rfl (h entity)
  | list items =>
      simp only [property, listProperty, plainProperty]
      split
      · rfl
      · rcases (Decimal.position? name).bind fun i => items[i]? with _ | (_ | _) <;> rfl

/-- All that taking a property can do to the state: nothing, unless a mapped property of a handle is
not kept; then the source is asked, and a series that it gives is kept. -/
theorem property_state_cases (base : Value) (name : String) (setting : Setting) (s : State) :
    (property base name setting s).2 = s ∨
      ∃ entity endpoint, base = .entity entity ∧ entity.kind.endpoint? name = some endpoint ∧
        s.kept? setting (cacheKey entity.id name) = none ∧
        ((∀ series, (s.fetch setting entity name endpoint).answer ≠ .series series) ∧
            (property base name setting s).2 = s.asked (s.fetch setting entity name endpoint) ∨
          ∃ series, (s.fetch setting entity name endpoint).answer = .series series ∧
            (property base name setting s).2 =
              (s.asked (s.fetch setting entity name endpoint)).keeping setting
                (cacheKey entity.id name) series) := by
  cases base with
  | scalar x => exact Or.inl rfl
  | series t => exact Or.inl (by rw [property_of_plain (by simp)])
  | list items => exact Or.inl (by rw [property_of_plain (by simp)])
  | entity entity =>
      change (entityProperty entity name setting s).2 = s ∨ _
      cases he : entity.kind.endpoint? name with
      | none => exact Or.inl (by rw [entityProperty_of_unmapped he])
      | some endpoint =>
          cases hk : s.kept? setting (cacheKey entity.id name) with
          | some series => exact Or.inl (by rw [entityProperty_of_kept he hk])
          | none =>
              refine Or.inr ⟨entity, endpoint, rfl, he, hk, ?_⟩
              have hmissing := entityProperty_of_missing he hk
              rw [property, hmissing]
              cases hanswer : (s.fetch setting entity name endpoint).answer with
              | series series => exact Or.inr ⟨series, rfl, rfl⟩
              | error e => exact Or.inl ⟨nofun, rfl⟩
              | crash message => exact Or.inl ⟨nofun, rfl⟩

/-! ## Statements -/

theorem contain_ok (x : Run Unit) (setting : Setting) (s : State) :
    ∃ s', contain x setting s = (.ok (), s') := by
  rcases h : x setting s with ⟨(f | message) | a, s'⟩ <;> simp only [contain, h]
  · exact ⟨_, rfl⟩
  · exact ⟨_, rfl⟩
  · exact ⟨_, rfl⟩

end Run

open Run in
/-- A script always runs to its end. -/
theorem execAll_ok (statements : List Statement) (setting : Setting) (s : State) :
    ∃ s', execAll statements setting s = (.ok (), s') := by
  induction statements generalizing s with
  | nil => exact ⟨s, rfl⟩
  | cons statement rest ih =>
      rcases contain_ok statement.exec setting s with ⟨s₁, h⟩
      rcases ih s₁ with ⟨s₂, hrest⟩
      exact ⟨s₂, (bind_apply_ok h).trans hrest⟩

end MetricScript
