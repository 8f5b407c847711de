import MetricScript.Proofs.Trace.Basic

/-! # Computations crash only where the source does

A crash begins at a call for a series that is not kept, and nothing follows that call. Up to there
the source has answered every call, and every failure that was recorded is an ordinary one. What a
crash leaves behind is the state in which the call was made, and the call. -/

namespace MetricScript

open Run Trace

/-! ## On the way to a crash -/

/-- The source did not crash in answer to the call. -/
def Fetch.IsAnswered (fetch : Fetch) : Prop :=
  ∀ message, fetch.answer ≠ .crash message

/-- The failure is not that of a crash. -/
def Failure.IsOrdinary : Failure → Prop
  | .crash _ => False
  | _ => True

theorem Failure.IsOrdinary.kind_ne {f : Failure} (h : f.IsOrdinary) :
    f.kind ≠ .interpreterError := by
  cases f with
  | crash message => exact h.elim
  | _ => simp [kind]

/-- The second list is the first one with more items behind it, all of which have the property. -/
def GrowsBy {α : Type} (P : α → Prop) (first second : List α) : Prop :=
  ∃ added, second = first ++ added ∧ ∀ a ∈ added, P a

namespace GrowsBy

variable {α : Type} {P : α → Prop} {first second third : List α}

theorem refl (first : List α) : GrowsBy P first first :=
  ⟨[], (List.append_nil _).symm, by simp⟩

theorem trans (h : GrowsBy P first second) (h' : GrowsBy P second third) :
    GrowsBy P first third := by
  obtain ⟨added, rfl, hadded⟩ := h
  obtain ⟨more, rfl, hmore⟩ := h'
  refine ⟨added ++ more, List.append_assoc _ _ _, fun a ha => ?_⟩
  exact (List.mem_append.mp ha).elim (hadded a) (hmore a)

theorem map {β : Type} {Q : β → Prop} {f : α → β} (h : GrowsBy P first second)
    (hf : ∀ a, P a → Q (f a)) : GrowsBy Q (first.map f) (second.map f) := by
  obtain ⟨added, rfl, hadded⟩ := h
  exact ⟨added.map f, List.map_append, List.forall_mem_map.mpr fun a ha => hf a (hadded a ha)⟩

end GrowsBy

/-- On the way from one state to the other no call made the source crash, and no crash was
recorded. -/
structure State.CalmTo (s t : State) : Prop where
  fetches : GrowsBy Fetch.IsAnswered s.fetches t.fetches
  failures : GrowsBy Failure.IsOrdinary s.failures t.failures

namespace State.CalmTo

variable {s t u : State}

theorem refl (s : State) : s.CalmTo s :=
  ⟨.refl _, .refl _⟩

theorem trans (h : s.CalmTo t) (h' : t.CalmTo u) : s.CalmTo u :=
  ⟨h.fetches.trans h'.fetches, h.failures.trans h'.failures⟩

/-- A change of the state that neither asks the source nor records anything. -/
theorem of_eq (hfetches : t.fetches = s.fetches) (hfailures : t.failures = s.failures) :
    s.CalmTo t :=
  ⟨hfetches ▸ .refl _, hfailures ▸ .refl _⟩

theorem recording (s : State) {failures : List Failure} (h : ∀ f ∈ failures, f.IsOrdinary) :
    s.CalmTo (s.recording failures) :=
  ⟨.refl _, failures, rfl, h⟩

theorem asked (s : State) {fetch : Fetch} (h : fetch.IsAnswered) : s.CalmTo (s.asked fetch) :=
  ⟨⟨[fetch], rfl, by simpa using h⟩, .refl _⟩

/-- The calls up to one that comes at the end of the way. -/
theorem fetches_asked (h : s.CalmTo t) (fetch : Fetch) :
    ∃ earlier, (t.asked fetch).fetches = s.fetches ++ (earlier ++ [fetch]) ∧
      ∀ other ∈ earlier, other.IsAnswered := by
  obtain ⟨earlier, hearlier, hanswered⟩ := h.fetches
  refine ⟨earlier, ?_, hanswered⟩
  rw [State.asked, hearlier, List.append_assoc]

theorem keeping (s : State) (setting : Setting) (key : String) (series : Series) :
    s.CalmTo (s.keeping setting key series) := by
  obtain ⟨cache, hkeeping⟩ := s.exists_keeping_eq setting key series
  rw [hkeeping]
  exact of_eq rfl rfl

end State.CalmTo

/-! ## How computations end -/

/-- How a computation ends that crashes only where the source does. A value is as described. -/
inductive Ends {α : Type} (setting : Setting) (s : State) (Q : α → Prop) :
    Except Stop α × State → Prop where
  | value {a : α} {t : State} (h : s.CalmTo t) (ha : Q a) : Ends setting s Q (.ok a, t)
  | failure {f : Failure} {t : State} (h : s.CalmTo t) (hf : f.IsOrdinary) :
    Ends setting s Q (.error (.failed f), t)
  /-- The source crashed in answer to a call that was made in the state `t`. -/
  | crash {message : Option String} {t : State} {entity : Entity} {name : String}
    {endpoint : Endpoint} (h : s.CalmTo t) (hmapped : entity.kind.endpoint? name = some endpoint)
    (hmissing : t.kept? setting (cacheKey entity.id name) = none)
    (hcrash : (t.fetch setting entity name endpoint).answer = .crash message) :
    Ends setting s Q (.error (.crashed message), t.asked (t.fetch setting entity name endpoint))

theorem Ends.after {α : Type} {setting : Setting} {s t : State} {Q : α → Prop}
    {r : Except Stop α × State} (h : s.CalmTo t) (hr : Ends setting t Q r) :
    Ends setting s Q r := by
  cases hr with
  | value h' ha => exact .value (h.trans h') ha
  | failure h' hf => exact .failure (h.trans h') hf
  | crash h' hmapped hmissing hcrash => exact .crash (h.trans h') hmapped hmissing hcrash

/-- The computation crashes only where the source does, wherever it starts. -/
def Orderly {α : Type} (setting : Setting) (Q : α → Prop) (x : Run α) : Prop :=
  ∀ s, Ends setting s Q (x setting s)

/-- Nothing is said about the value. -/
def anything {α : Type} : α → Prop := fun _ => True

/-- A result that is a value or the failure of something other than a crash. -/
def IsOrdinaryResult {α : Type} (r : Except Failure α) : Prop :=
  ∀ f ∈ failureOf? r, f.IsOrdinary

namespace IsOrdinaryResult

variable {α β : Type}

theorem ok (a : α) : IsOrdinaryResult (.ok a) := nofun

theorem error {f : Failure} (h : f.IsOrdinary) : IsOrdinaryResult (.error f : Except Failure α) :=
  fun _ hf => Option.some.inj hf ▸ h

theorem map {r : Except Failure α} (h : IsOrdinaryResult r) (g : α → β) :
    IsOrdinaryResult (r.map g) := by
  cases r with
  | ok a => exact .ok _
  | error f => exact .error (h f rfl)

end IsOrdinaryResult

namespace Orderly

variable {α β : Type} {setting : Setting} {Q : α → Prop} {R : β → Prop} {x : Run α}

theorem ends (hx : Orderly setting Q x) {s : State} {r : Except Stop α × State}
    (h : x setting s = r) : Ends setting s Q r :=
  h ▸ hx s

theorem pure {a : α} (h : Q a) : Orderly setting Q (pure a : Run α) := fun s =>
  .value (.refl s) h

theorem bind {f : α → Run β} (hx : Orderly setting Q x) (hf : ∀ a, Q a → Orderly setting R (f a)) :
    Orderly setting R (x >>= f) := by
  intro s
  generalize hr : x setting s = r
  cases hx.ends hr with
  | value h ha =>
      rw [bind_apply_ok hr]
      exact (hf _ ha _).after h
  | failure h hf =>
      rw [bind_apply_error hr]
      exact .failure h hf
  | crash h hmapped hmissing hcrash =>
      rw [bind_apply_error hr]
      exact .crash h hmapped hmissing hcrash

/-- A failure turned into a result is as ordinary as before, and a crash goes through. -/
theorem attempt (hx : Orderly setting Q x) : Orderly setting IsOrdinaryResult (attempt x) := by
  intro s
  generalize hr : x setting s = r
  cases hx.ends hr with
  | value h ha =>
      rw [attempt_of_ok hr]
      exact .value h (.ok _)
  | failure h hf =>
      rw [attempt_of_failed hr]
      exact .value h (.error hf)
  | crash h hmapped hmissing hcrash =>
      rw [attempt_of_crashed hr]
      exact .crash h hmapped hmissing hcrash

/-- A computation that ends by itself and leaves the state. -/
theorem still {r : State → Except Failure α}
    (h : ∀ s, x setting s = ((r s).mapError Stop.failed, s)) (hr : ∀ s, IsOrdinaryResult (r s)) :
    Orderly setting anything x := by
  intro s
  rw [h s]
  have hordinary := hr s
  cases hs : r s with
  | ok a => exact .value (.refl s) trivial
  | error f =>
      rw [hs] at hordinary
      exact .failure (.refl s) (hordinary f rfl)

theorem fail {f : Failure} (h : f.IsOrdinary) : Orderly setting Q (fail f : Run α) := fun s =>
  .failure (.refl s) h

/-- A computation that records ordinary failures and has a value. -/
theorem recording {a : α} {failures : List Failure} (ha : Q a)
    (h : ∀ s, x setting s = (.ok a, s.recording failures))
    (hfailures : ∀ f ∈ failures, f.IsOrdinary) : Orderly setting Q x := by
  intro s
  rw [h s]
  exact .value (.recording s hfailures) ha

theorem change {f : State → State} (h : ∀ s : State, s.CalmTo (f s)) :
    Orderly setting anything (change f) := fun s =>
  .value (h s) trivial

theorem now : Orderly setting anything now := fun s => .value (.refl s) trivial

theorem settle (hx : Orderly setting Q x) : Orderly setting anything (settle x) :=
  hx.attempt.bind fun r hr =>
    recording trivial (settleResult_apply r setting) fun f hf => hr f (Option.mem_toList.mp hf)

end Orderly

/-! ## Built-in functions and properties -/

theorem Builtin.ordinary_windowOf (b : Builtin) (arguments : List (Option Value))
    (defaultWindow : Nat) : IsOrdinaryResult (b.windowOf arguments defaultWindow) := by
  unfold windowOf
  split
  · exact .ok _
  · exact .ok _
  · split
    · exact .ok _
    · exact .error trivial

theorem Builtin.ordinary_average (b : Builtin) (transform : Nat → Series → Series)
    (arguments : List (Option Value)) (defaultWindow : Nat) :
    IsOrdinaryResult (b.average transform arguments defaultWindow) := by
  unfold average
  split
  · exact .error trivial
  · exact (b.ordinary_windowOf arguments defaultWindow).map _

theorem Builtin.ordinary_transformOnly (b : Builtin) (transform : Series → Series)
    (arguments : List (Option Value)) : IsOrdinaryResult (b.transformOnly transform arguments) := by
  unfold transformOnly
  split
  · exact .ok _
  · exact .error trivial

theorem Builtin.ordinary_apply (b : Builtin) (arguments : List (Option Value))
    (defaultWindow : Nat) (now : Timestamp) :
    IsOrdinaryResult (b.apply arguments defaultWindow now) := by
  cases b with
  | ma => exact ordinary_average _ _ arguments defaultWindow
  | ema => exact ordinary_average _ _ arguments defaultWindow
  | diff => exact ordinary_transformOnly _ _ arguments
  | abs => exact ordinary_transformOnly _ _ arguments
  | pctChange => exact ordinary_transformOnly _ _ arguments
  | choose => exact .ok _

theorem Run.ordinary_callResult (setting : Setting) (function : String)
    (arguments : List (Option Value)) :
    IsOrdinaryResult (callResult setting function arguments) := by
  unfold callResult
  split
  · unfold EntityKind.construct
    split
    · exact .ok _
    · exact .error trivial
  · split
    · exact Builtin.ordinary_apply _ arguments _ _
    · exact .error trivial

theorem Run.ordinary_plainProperty (base : Value) (name : String) :
    IsOrdinaryResult (plainProperty base name) := by
  unfold plainProperty
  split
  · split
    · exact .ok _
    · exact .error trivial
  · split
    · exact .ok _
    · split
      · exact .ok _
      · exact .error trivial
  · exact .error trivial

namespace Orderly

variable {setting : Setting}

theorem nameValue (name : String) : Orderly setting anything (nameValue name) := by
  refine still (r := fun s => if name = "null" then .ok .null
    else (s.bindings.find? name).elim (.error (.undefinedVariable name)) .ok) (fun s => ?_)
    fun s => ?_
  · rw [nameValue_apply]
    split
    · rfl
    · cases s.bindings.find? name <;> rfl
  · split
    · exact .ok _
    · cases s.bindings.find? name with
      | some v => exact .ok v
      | none => exact .error trivial

theorem callFunction (function : String) (arguments : List (Option Value)) :
    Orderly setting anything (callFunction function arguments) :=
  still (callFunction_apply function arguments setting) fun _ =>
    ordinary_callResult setting function arguments

/-- The one place at which a crash begins. -/
theorem entityProperty (entity : Entity) (name : String) :
    Orderly setting anything (entityProperty entity name) := by
  intro s
  cases he : entity.kind.endpoint? name with
  | none =>
      rw [entityProperty_of_unmapped he]
      exact .failure (.refl s) trivial
  | some endpoint =>
      cases hk : s.kept? setting (cacheKey entity.id name) with
      | some series =>
          rw [entityProperty_of_kept he hk]
          exact .value (.refl s) trivial
      | none =>
          rw [entityProperty_of_missing he hk]
          cases hanswer : (s.fetch setting entity name endpoint).answer with
          | series series =>
              have hasked : s.CalmTo (s.asked (s.fetch setting entity name endpoint)) :=
                .asked s (by simp [Fetch.IsAnswered, hanswer])
              exact .value (hasked.trans (.keeping _ setting _ series)) trivial
          | error e =>
              exact .failure (.asked s (by simp [Fetch.IsAnswered, hanswer])) trivial
          | crash message => exact .crash (.refl s) he hk hanswer

theorem property (base : Value) (name : String) :
    Orderly setting anything (property base name) := by
  have hplain (h : ∀ entity, base ≠ .entity entity) :
      Orderly setting anything (Run.property base name) :=
    still (property_of_plain h name setting) fun _ => ordinary_plainProperty base name
  cases base with
  | entity entity => exact entityProperty entity name
  | scalar x => exact hplain (by simp)
  | series t => exact hplain (by simp)
  | list items => exact hplain (by simp)

theorem properties (base : Value) (names : List String) :
    Orderly setting anything (properties base names) := by
  induction names generalizing base with
  | nil => exact pure trivial
  | cons name rest ih => exact (property base name).bind fun value _ => ih value

/-! ## Checks -/

theorem ordinary_handleFailure {name : Option String} {value : Option Value} {f : Failure}
    (h : handleFailure? name value = some f) : f.IsOrdinary := by
  unfold handleFailure? at h
  split at h <;> cases h
  exact trivial

theorem refuseHandle (name : Option String) (value : Option Value) :
    Orderly setting anything (refuseHandle name value) :=
  recording trivial (refuseHandle_apply name value setting) fun _ hf =>
    ordinary_handleFailure (Option.mem_toList.mp hf)

theorem refuseHandles (arguments : List Expr) (values : List (Option Value)) :
    Orderly setting anything (refuseHandles arguments values) := by
  refine recording trivial (refuseHandles_apply arguments values setting) fun f hf => ?_
  obtain ⟨complaint, hmem, rfl⟩ := List.mem_filterMap.mp hf
  rw [← List.map_uncurry_zip_eq_zipWith] at hmem
  obtain ⟨pair, -, heq⟩ := List.mem_map.mp hmem
  exact ordinary_handleFailure heq

theorem settleResults {results : List (Except Failure Value)}
    (h : ∀ r ∈ results, IsOrdinaryResult r) :
    Orderly setting anything (settleResults results) := by
  refine recording trivial (settleResults_apply results setting) fun f hf => ?_
  obtain ⟨r, hr, heq⟩ := List.mem_filterMap.mp hf
  exact h r hr f heq

theorem ordinary_styleFailures (values : List (Option Value)) :
    ∀ f ∈ styleFailures values, f.IsOrdinary := by
  intro f hf
  rcases List.mem_append.mp hf with hf | hf
  · obtain ⟨text, -, heq⟩ := Option.bind_eq_some_iff.mp (Option.mem_toList.mp hf)
    unfold chartTypeFailure? at heq
    split at heq <;> cases heq
    exact trivial
  · obtain ⟨text, -, heq⟩ := Option.bind_eq_some_iff.mp (Option.mem_toList.mp hf)
    unfold colorFailure? at heq
    split at heq <;> cases heq
    exact trivial

theorem plotValues (values : List (Option Value)) :
    Orderly setting anything (plotValues values) := by
  intro s
  cases h : Builtin.argument? values 0 with
  | none =>
      rw [plotValues_of_missing h]
      exact .value (.refl s) trivial
  | some series =>
      cases he : series.isEmptyCollection with
      | true =>
          rw [plotValues_of_empty h he]
          exact .failure (.refl s) trivial
      | false =>
          rw [plotValues_of_drawn h he]
          have hstyled := State.CalmTo.recording s (ordinary_styleFailures values)
          exact .value (hstyled.trans (.of_eq rfl rfl)) trivial

end Orderly

/-! ## Expressions -/

section Expressions

variable {setting : Setting}

theorem Expr.orderly_evalItems {items : List Expr}
    (h : ∀ e ∈ items, Orderly setting anything e.eval) :
    Orderly setting anything (Expr.evalItems items) := by
  induction items with
  | nil => exact .pure trivial
  | cons e rest ih =>
      obtain ⟨he, hrest⟩ := List.forall_mem_cons.mp h
      exact he.settle.bind fun _ _ => (ih hrest).bind fun _ _ => .pure trivial

/-- The failures of arguments are recorded only after all of them are evaluated; that they are
ordinary goes along with the results until then. -/
theorem Expr.orderly_attemptAll {arguments : List Expr}
    (h : ∀ e ∈ arguments, Orderly setting anything e.eval) :
    Orderly setting (fun results => ∀ r ∈ results, IsOrdinaryResult r)
      (Expr.attemptAll arguments) := by
  induction arguments with
  | nil => exact .pure (by simp)
  | cons e rest ih =>
      obtain ⟨he, hrest⟩ := List.forall_mem_cons.mp h
      exact he.attempt.bind fun r hr => (ih hrest).bind fun results hresults =>
        .pure (List.forall_mem_cons.mpr ⟨hr, hresults⟩)

theorem Expr.orderly_evalLinks {rest : List (Operator × Expr)}
    (h : ∀ link ∈ rest, Orderly setting anything link.2.eval) (left : Option Value) :
    Orderly setting anything (Expr.evalLinks left rest) := by
  induction rest generalizing left with
  | nil => exact .pure trivial
  | cons link rest ih =>
      obtain ⟨op, e⟩ := link
      obtain ⟨he, hrest⟩ := List.forall_mem_cons.mp h
      exact he.settle.bind fun value _ => (Orderly.refuseHandle _ value).bind fun right _ =>
        Orderly.now.bind fun _ _ => ih hrest _

/-- The evaluation of an expression crashes only where the source does. -/
theorem Expr.orderly_eval (e : Expr) : Orderly setting anything e.eval := by
  induction e using Expr.induct with
  | literal l => exact .pure trivial
  | name name => exact .nameValue name
  | array items ih => exact (Expr.orderly_evalItems ih).bind fun _ _ => .pure trivial
  | call function arguments ih =>
      exact (Expr.orderly_attemptAll ih).bind fun results hresults =>
        (Orderly.settleResults hresults).bind fun values _ => .callFunction function values
  | member base names ih => exact ih.bind fun value _ => .properties value names
  | chain first rest hfirst hrest =>
      by_cases hempty : rest.isEmpty = true
      · simpa only [Expr.eval, hempty, if_true] using hfirst
      · simp only [Expr.eval, hempty]
        refine hfirst.settle.bind fun left _ =>
          (Expr.orderly_evalLinks hrest left).bind fun value _ => ?_
        cases value with
        | some v => exact .pure trivial
        | none => exact .fail trivial
  | not operand ih => exact ih.settle.bind fun _ _ => Orderly.now.bind fun _ _ => .pure trivial
  | unsupported => exact .fail trivial

theorem Expr.orderly_evalArguments (arguments : List Expr) :
    Orderly setting anything (Expr.evalArguments arguments) :=
  (Expr.orderly_attemptAll fun e _ => e.orderly_eval).bind fun _ hresults =>
    .settleResults hresults

/-! ## Statements -/

/-- A statement crashes only where the source does. -/
theorem Statement.orderly_exec (statement : Statement) :
    Orderly setting anything statement.exec := by
  cases statement with
  | assignment name value =>
      cases value with
      | none => exact .change fun _ => .of_eq rfl rfl
      | some e =>
          refine e.orderly_eval.attempt.bind fun result hresult => ?_
          cases result with
          | ok v => exact .change fun _ => .of_eq rfl rfl
          | error f =>
              have hunbound : Orderly setting anything (unbindVariable name) :=
                .change fun _ => .of_eq rfl rfl
              exact hunbound.bind fun _ _ => .fail (hresult f rfl)
  | plot arguments =>
      by_cases hempty : arguments.isEmpty = true
      · simp only [Statement.exec, plotArguments, hempty, if_true]
        exact .fail trivial
      · simp only [Statement.exec, plotArguments, hempty]
        exact (Expr.orderly_evalArguments arguments).bind fun values _ =>
          (Orderly.refuseHandles arguments values).bind fun values _ => .plotValues values
  | highlight arguments =>
      exact (Expr.orderly_evalArguments arguments).bind fun _ _ =>
        .change fun _ => .of_eq rfl rfl
  | expression e => exact .pure trivial
  | unsupported rule => exact .fail trivial

end Expressions

end MetricScript
