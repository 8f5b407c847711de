import MetricScript.Proofs.Cache.Provenance

/-! # Keeping series makes no difference to what is computed

If the answer to a call depends on the call alone then it makes no difference to what a computation
brings about whether series are kept or every access asks the source anew, as long as no identifier
is accessed by way of two kinds. A computation that keeps series and one that does not are followed
side by side. -/

namespace MetricScript

open Run Trace

/-- Two settings in which a function of the call gives the answer: one that keeps series, and one
that does not. -/
structure Comparison where
  answer : Call → Answer
  config : Config := {}
  clock : Timestamp := 0
  /-- How long the source takes in either of them. -/
  pace : Bool → Pace := fun _ _ _ => 0

def Comparison.setting (c : Comparison) (keepsSeries : Bool) : Setting :=
  { source := fun _ call => c.answer call
    config := c.config
    clock := c.clock
    keepsSeries
    pace := c.pace keepsSeries }

/-- No identifier stands for two kinds. -/
def OneKindEach (entities : List Entity) : Prop :=
  ∀ entity ∈ entities, ∀ other ∈ entities, entity.id = other.id → entity.kind = other.kind

instance (entities : List Entity) : Decidable (OneKindEach entities) :=
  inferInstanceAs (Decidable (∀ entity ∈ entities, ∀ other ∈ entities, _ → _))

/-! ## States that match -/

/-- Whatever is kept is the answer to the call for a metric of one of the handles. -/
def State.KeepsAnswers (answer : Call → Answer) (entities : List Entity) (s : State) : Prop :=
  ∀ key series, s.cache.find? key = some series → ∃ entity ∈ entities, ∃ name endpoint,
    entity.kind.endpoint? name = some endpoint ∧ cacheKey entity.id name = key ∧
      answer ⟨endpoint, entity.id⟩ = .series series

namespace State.KeepsAnswers

variable {answer : Call → Answer} {entities : List Entity} {s : State} {entity : Entity}
  {name : String} {endpoint : Endpoint} {series : Series}

theorem keeping (h : s.KeepsAnswers answer entities) (hentity : entity ∈ entities)
    (hmapped : entity.kind.endpoint? name = some endpoint)
    (hanswer : answer ⟨endpoint, entity.id⟩ = .series series) (setting : Setting) :
    (s.keeping setting (cacheKey entity.id name) series).KeepsAnswers answer entities := by
  intro key kept hkept
  rw [State.find?_cache_keeping] at hkept
  split at hkept
  next hkey =>
      cases hkept
      exact ⟨entity, hentity, name, endpoint, hmapped, hkey.2, hanswer⟩
  next => exact h key kept hkept

/-- Whatever is kept for a metric of a handle is what the source has to answer. -/
theorem answer_of_kept (h : s.KeepsAnswers answer entities) (hone : OneKindEach entities)
    (hentity : entity ∈ entities) (hmapped : entity.kind.endpoint? name = some endpoint)
    (hkept : s.cache.find? (cacheKey entity.id name) = some series) :
    answer ⟨endpoint, entity.id⟩ = .series series := by
  obtain ⟨other, hother, name', endpoint', hmapped', hkey, hanswer⟩ := h _ _ hkept
  obtain ⟨hid, rfl⟩ := cacheKey_inj_of_endpoint? hmapped' hmapped hkey
  rw [hone other hother entity hentity hid, hmapped] at hmapped'
  cases hmapped'
  rwa [hid] at hanswer

end State.KeepsAnswers

/-- Two states that have brought about the same, where the first one keeps nothing but what some of
the handles give. -/
structure State.Matches (answer : Call → Answer) (entities : List Entity) (s u : State) :
    Prop where
  bindings : u.bindings = s.bindings
  plots : u.plots = s.plots
  highlights : u.highlights = s.highlights
  failures : u.failures = s.failures
  cache : s.KeepsAnswers answer entities

namespace State.Matches

variable {answer : Call → Answer} {entities : List Entity} {s u : State}

theorem initial : State.Matches answer entities {} {} :=
  ⟨rfl, rfl, rfl, rfl, nofun⟩

theorem recording (h : s.Matches answer entities u) (failures : List Failure) :
    (s.recording failures).Matches answer entities (u.recording failures) :=
  { h with failures := by rw [State.failures_recording, State.failures_recording, h.failures] }

theorem asked (h : s.Matches answer entities u) (fetch fetch' : Fetch) :
    (s.asked fetch).Matches answer entities (u.asked fetch') :=
  { h with }

/-- The first one keeps a series that one of the handles gives. -/
theorem keeping (h : s.Matches answer entities u) {entity : Entity} (hentity : entity ∈ entities)
    {name : String} {endpoint : Endpoint} (hmapped : entity.kind.endpoint? name = some endpoint)
    {series : Series} (hanswer : answer ⟨endpoint, entity.id⟩ = .series series)
    (setting : Setting) :
    (s.keeping setting (cacheKey entity.id name) series).Matches answer entities u := by
  have hcache := h.cache.keeping hentity hmapped hanswer setting
  unfold State.keeping at hcache ⊢
  split at hcache
  next hkeeps =>
      rw [if_pos hkeeps]
      exact { h with cache := hcache }
  next hkeeps =>
      rw [if_neg hkeeps]
      exact h

end State.Matches

/-! ## Computations that mirror each other -/

/-- Started from states that match, a computation ends alike and in states that match, whether
series are kept or not, if it takes metrics of the given handles only. -/
def Mirrors {α : Type} (c : Comparison) (entities : List Entity) (t : Trace) (x : Run α) : Prop :=
  ∀ s u, s.Matches c.answer entities u →
    handles (t (c.setting true) s) ⊆ entities →
      (x (c.setting false) u).1 =
        (x (c.setting true) s).1 ∧
      (x (c.setting true) s).2.Matches c.answer entities
        (x (c.setting false) u).2

namespace Mirrors

variable {α β : Type} {c : Comparison} {entities : List Entity} {t : Trace} {x : Run α}

/-- How the two computations end, with all that is known of it. -/
theorem ends (hx : Mirrors c entities t x) {s u : State}
    (hs : s.Matches c.answer entities u)
    (ht : handles (t (c.setting true) s) ⊆ entities) :
    ∃ r s' u', x (c.setting true) s = (r, s') ∧
      x (c.setting false) u = (r, u') ∧ s'.Matches c.answer entities u' := by
  obtain ⟨hresult, hstate⟩ := hx s u hs ht
  exact ⟨_, _, (x (c.setting false) u).2, rfl, Prod.ext hresult rfl, hstate⟩

theorem of_eq {s u s' u' : State} {r : Except Stop α}
    (hcached : x (c.setting true) s = (r, s'))
    (hdirect : x (c.setting false) u = (r, u'))
    (h : s'.Matches c.answer entities u') :
    (x (c.setting false) u).1 =
        (x (c.setting true) s).1 ∧
      (x (c.setting true) s).2.Matches c.answer entities
        (x (c.setting false) u).2 := by
  rw [hcached, hdirect]
  exact ⟨rfl, h⟩

/-- A computation that does not look at what is kept and treats states that match alike. -/
theorem uniform {r : State → Except Stop α} {f : State → State}
    (hx : ∀ keeps s, x (c.setting keeps) s = (r s, f s))
    (h : ∀ s u, s.Matches c.answer entities u →
      r u = r s ∧ (f s).Matches c.answer entities (f u)) :
    Mirrors c entities t x := by
  intro s u hs _
  obtain ⟨hr, hf⟩ := h s u hs
  exact of_eq (hx true s) (by rw [hx false u, hr]) hf

/-- A computation that does nothing to the state and asks nothing of it. -/
theorem still {r : Except Stop α}
    (hx : ∀ keeps s, x (c.setting keeps) s = (r, s)) :
    Mirrors c entities t x :=
  uniform hx fun _ _ hs => ⟨rfl, hs⟩

/-- A computation that only records failures. -/
theorem recording {r : Except Stop α} {failures : List Failure}
    (hx : ∀ keeps s, x (c.setting keeps) s = (r, s.recording failures)) :
    Mirrors c entities t x :=
  uniform hx fun _ _ hs => ⟨rfl, hs.recording failures⟩

theorem pure (a : α) : Mirrors c entities t (pure a : Run α) :=
  still fun _ s => pure_apply a _ s

theorem andThen {next : α → Trace} {f : α → Run β}
    (hx : Mirrors c entities t x)
    (hf : ∀ a, Mirrors c entities (next a) (f a)) :
    Mirrors c entities (t.andThen x next) (x >>= f) := by
  intro s u hs ht
  rw [Trace.andThen, handles_append] at ht
  obtain ⟨hfront, hrest⟩ := List.append_subset.mp ht
  obtain ⟨stop | a, s', u', hcached, hdirect, hs'⟩ := hx.ends hs hfront
  · exact of_eq (bind_apply_error hcached) (bind_apply_error hdirect) hs'
  · rw [hcached] at hrest
    rw [bind_apply_ok hcached, bind_apply_ok hdirect]
    exact hf a s' u' hs' hrest

/-- What follows takes no steps. -/
theorem bind_still {f : α → Run β} (hx : Mirrors c entities t x)
    (hf : ∀ a, Mirrors c entities (row []) (f a)) :
    Mirrors c entities t (x >>= f) := by
  intro s u hs ht
  have hsteps : handles ((t.andThen x fun _ => row []) (c.setting true) s) ⊆
      entities := by
    rw [Trace.andThen, handles_append]
    refine List.append_subset.mpr ⟨ht, ?_⟩
    split <;> exact List.nil_subset _
  exact hx.andThen hf s u hs hsteps

theorem attempt (hx : Mirrors c entities t x) :
    Mirrors c entities t (attempt x) := by
  intro s u hs ht
  obtain ⟨(f | message) | a, s', u', hcached, hdirect, hs'⟩ := hx.ends hs ht
  · exact of_eq (attempt_of_failed hcached) (attempt_of_failed hdirect) hs'
  · exact of_eq (attempt_of_crashed hcached) (attempt_of_crashed hdirect) hs'
  · exact of_eq (attempt_of_ok hcached) (attempt_of_ok hdirect) hs'

theorem settling (hx : Mirrors c entities t x) :
    Mirrors c entities (t.settling x) (settle x) := by
  intro s u hs ht
  rw [Trace.settling, handles_append] at ht
  obtain ⟨(f | message) | a, s', u', hcached, hdirect, hs'⟩ :=
    hx.ends hs (List.append_subset.mp ht).1
  · exact of_eq (settle_of_failed hcached) (settle_of_failed hdirect) (hs'.recording [f])
  · exact of_eq (settle_of_crashed hcached) (settle_of_crashed hdirect) hs'
  · exact of_eq (settle_of_ok hcached) (settle_of_ok hdirect) hs'

theorem containing {x : Run Unit} (hx : Mirrors c entities t x) :
    Mirrors c entities (t.containing x) (contain x) := by
  intro s u hs ht
  rw [Trace.containing, handles_append] at ht
  obtain ⟨(f | message) | a, s', u', hcached, hdirect, hs'⟩ :=
    hx.ends hs (List.append_subset.mp ht).1
  · simp only [contain, hcached, hdirect, record_apply]
    exact ⟨trivial, hs'.recording [f]⟩
  · simp only [contain, hcached, hdirect, record_apply]
    exact ⟨trivial, hs'.recording _⟩
  · simp only [contain, hcached, hdirect]
    exact ⟨trivial, hs'⟩

/-! ## Elementary computations -/

theorem fail (f : Failure) : Mirrors c entities t (fail f : Run α) :=
  still fun _ _ => rfl

theorem now : Mirrors c entities t now :=
  still (r := .ok (c.config.nowOverride.getD c.clock)) fun _ _ => rfl

theorem nameValue (name : String) : Mirrors c entities t (nameValue name) :=
  uniform (fun _ s => nameValue_apply name _ s) fun _ _ hs => ⟨by rw [hs.bindings], hs⟩

theorem callFunction (function : String) (arguments : List (Option Value)) :
    Mirrors c entities t (callFunction function arguments) := by
  have hresult (keeps : Bool) :
      callResult (c.setting keeps) function arguments =
        callResult (c.setting true) function arguments := rfl
  exact still fun keeps s => by rw [callFunction_apply, hresult]

theorem settleResults (results : List (Except Failure Value)) :
    Mirrors c entities t (settleResults results) :=
  recording fun _ s => settleResults_apply results _ s

theorem refuseHandle (name : Option String) (value : Option Value) :
    Mirrors c entities t (refuseHandle name value) :=
  recording fun _ s => refuseHandle_apply name value _ s

theorem refuseHandles (arguments : List Expr) (values : List (Option Value)) :
    Mirrors c entities t (refuseHandles arguments values) :=
  recording fun _ s => refuseHandles_apply arguments values _ s

theorem plotValues (values : List (Option Value)) :
    Mirrors c entities t (plotValues values) := by
  cases h : Builtin.argument? values 0 with
  | none => exact still fun _ s => plotValues_of_missing h _ s
  | some series =>
      cases he : series.isEmptyCollection with
      | true => exact still fun _ s => plotValues_of_empty h he _ s
      | false =>
          refine uniform (fun _ s => plotValues_of_drawn h he _ s) fun s u hs => ⟨rfl, ?_⟩
          exact { hs.recording _ with plots := by rw [hs.plots] }

/-- A metric that is kept is what asking the source anew gives. -/
theorem entityProperty (hone : OneKindEach entities) (entity : Entity) (name : String) :
    Mirrors c entities (row [.access (.entity entity) name])
      (property (.entity entity) name) := by
  intro s u hs ht
  cases hmapped : entity.kind.endpoint? name with
  | none =>
      exact of_eq (entityProperty_of_unmapped hmapped) (entityProperty_of_unmapped hmapped) hs
  | some endpoint =>
      have hentity : entity ∈ entities := ht (mem_handles_access hmapped)
      -- The run that keeps nothing asks in any case.
      have hdirect : property (.entity entity) name (c.setting false) u = _ :=
        entityProperty_of_missing hmapped rfl
      have hasked : (u.fetch (c.setting false) entity name endpoint).answer =
          c.answer ⟨endpoint, entity.id⟩ := rfl
      cases hk : s.kept? (c.setting true) (cacheKey entity.id name) with
      | some series =>
          have hanswer := hs.cache.answer_of_kept hone hentity hmapped hk
          simp only [hasked, hanswer] at hdirect
          exact of_eq (entityProperty_of_kept hmapped hk) hdirect { hs with }
      | none =>
          have hcached : property (.entity entity) name (c.setting true) s =
            _ := entityProperty_of_missing hmapped hk
          have hasked' :
              (s.fetch (c.setting true) entity name endpoint).answer =
                c.answer ⟨endpoint, entity.id⟩ := rfl
          rw [hasked] at hdirect
          rw [hasked'] at hcached
          cases hanswer : c.answer ⟨endpoint, entity.id⟩ with
          | series series =>
              simp only [hanswer] at hdirect hcached
              exact of_eq hcached hdirect ((hs.asked _ _).keeping hentity hmapped hanswer _)
          | error e =>
              simp only [hanswer] at hdirect hcached
              exact of_eq hcached hdirect (hs.asked _ _)
          | crash message =>
              simp only [hanswer] at hdirect hcached
              exact of_eq hcached hdirect (hs.asked _ _)

theorem property (hone : OneKindEach entities) (base : Value) (name : String) :
    Mirrors c entities (row [.access base name]) (property base name) := by
  have hplain (h : ∀ entity, base ≠ .entity entity) :
      Mirrors c entities (row [.access base name]) (Run.property base name) :=
    still fun _ s => property_of_plain h name _ s
  cases base with
  | entity entity => exact entityProperty hone entity name
  | scalar x => exact hplain (by simp)
  | series t => exact hplain (by simp)
  | list items => exact hplain (by simp)

theorem properties (hone : OneKindEach entities) (base : Value) (names : List String) :
    Mirrors c entities (propertiesTrace base names) (properties base names) := by
  induction names generalizing base with
  | nil => exact pure base
  | cons name rest ih => exact (property hone base name).andThen ih

end Mirrors

/-! ## Expressions -/

section Expressions

variable {c : Comparison} {entities : List Entity}

end Expressions

end MetricScript
