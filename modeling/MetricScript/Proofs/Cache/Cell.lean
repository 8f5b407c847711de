import MetricScript.Proofs.Cache.FetchOnce
import MetricScript.Proofs.Failure.Orderly

/-! # Every property of every identifier has a cell of its own

A key joins an identifier, which may be any text, and the name of a property by a dash, and quotes
neither. Keys are told apart nevertheless, because no property of any kind has a dash in its name:
an access reaches the cell of its own property and identifier, and no other. -/

namespace MetricScript

open Run Trace

/-- What belongs to a key: the series kept under it and the calls made on its behalf. -/
structure Cell where
  kept : Option Series
  calls : List Fetch

/-- The cell of a property of an identifier. Handles of different kinds share it. -/
def State.cell (s : State) (id name : String) : Cell :=
  ⟨s.cache.find? (cacheKey id name), s.callsFor (cacheKey id name)⟩

/-- The step takes the property from a handle on the identifier, of a kind that has the property. -/
def Step.Takes (id name : String) (step : Step) : Prop :=
  ∃ (kind : EntityKind) (endpoint : Endpoint),
    step = .access (.entity ⟨kind, id⟩) name ∧ kind.endpoint? name = some endpoint

/-- The call asks for the metric behind a property that its handle has. -/
def Fetch.IsMapped (fetch : Fetch) : Prop :=
  fetch.entity.kind.endpoint? fetch.property = some fetch.endpoint

section Cells

variable {setting : Setting} {s : State} {kind : EntityKind} {id name : String}
  {endpoint : Endpoint}

/-! ## Steps that leave a cell alone -/

theorem State.cell_asked_of_ne {fetch : Fetch} (h : fetch.key ≠ cacheKey id name) :
    (s.asked fetch).cell id name = s.cell id name := by
  rw [cell, s.callsFor_asked_of_ne h]
  rfl

theorem State.cell_keeping_of_ne {key : String} (series : Series) (h : key ≠ cacheKey id name) :
    (s.keeping setting key series).cell id name = s.cell id name := by
  rw [cell, s.callsFor_keeping, s.find?_cache_keeping, if_neg fun hsame => h hsame.2]
  rfl

/-- A step that takes another property, or the property of another identifier, or no property at
all, leaves the cell as it is. -/
theorem Step.cell_apply (hmapped : kind.endpoint? name = some endpoint) {step : Step}
    (h : ¬step.Takes id name) : (step.apply setting s).cell id name = s.cell id name := by
  cases step with
  | access base other =>
      rcases property_state_cases base other setting s with
        hstate | ⟨entity, asked, rfl, hasked, -, hstate⟩
      · simp only [apply, hstate]
      · have hkey : (s.fetch setting entity other asked).key ≠ cacheKey id name := by
          intro hkey
          obtain ⟨rfl, rfl⟩ := cacheKey_inj_of_endpoint? hasked hmapped hkey
          exact h ⟨entity.kind, asked, rfl, hasked⟩
        rcases hstate with ⟨-, hstate⟩ | ⟨series, -, hstate⟩
        · rw [apply, hstate, State.cell_asked_of_ne hkey]
        · rw [apply, hstate]
          exact (State.cell_keeping_of_ne series hkey).trans (State.cell_asked_of_ne hkey)
  | _ => rfl

/-- A row of steps none of which takes the property from the identifier leaves the cell alone. -/
theorem State.cell_replay (hmapped : kind.endpoint? name = some endpoint) {steps : List Step}
    (h : ∀ step ∈ steps, ¬step.Takes id name) :
    (replay setting s steps).cell id name = s.cell id name := by
  induction steps generalizing s with
  | nil => rfl
  | cons step rest ih =>
      obtain ⟨hstep, hrest⟩ := List.forall_mem_cons.mp h
      rw [replay_cons, ih hrest, step.cell_apply hmapped hstep]

/-! ## Calls -/

/-- A step takes no call back, and makes one only for a property that its handle has. -/
theorem Step.fetches_apply (step : Step) (setting : Setting) (s : State) :
    GrowsBy Fetch.IsMapped s.fetches (step.apply setting s).fetches := by
  cases step with
  | access base other =>
      rcases property_state_cases base other setting s with
        hstate | ⟨entity, asked, rfl, hasked, hmissing, -⟩
      · simp only [apply, hstate]
        exact .refl _
      · have hmapped : (s.fetch setting entity other asked).IsMapped := hasked
        exact ⟨_, fetches_property_of_missing hasked hmissing, by simpa using hmapped⟩
  | _ => exact .refl _

theorem fetches_replay (setting : Setting) (s : State) (steps : List Step) :
    GrowsBy Fetch.IsMapped s.fetches (replay setting s steps).fetches := by
  induction steps generalizing s with
  | nil => exact .refl _
  | cons step rest ih => exact (step.fetches_apply setting s).trans (ih _)

theorem State.callsFor_replay_ne_nil {key : String} (steps : List Step)
    (h : s.callsFor key ≠ []) : (replay setting s steps).callsFor key ≠ [] := by
  obtain ⟨made, hmade, -⟩ := fetches_replay setting s steps
  rw [callsFor, hmade, List.filter_append]
  exact List.append_ne_nil_of_left_ne_nil h _

/-- What is kept in a run was asked for in that run. -/
theorem State.callsFor_ne_nil_of_kept {steps : List Step} {key : String} {series : Series}
    (h : (replay setting {} steps).kept? setting key = some series) :
    (replay setting {} steps).callsFor key ≠ [] := by
  by_cases hkeeps : setting.keepsSeries = true
  · rw [kept?, if_pos hkeeps] at h
    exact (h ▸ State.coherent_replay hkeeps steps key).ne_nil
  · rw [kept?, if_neg hkeeps] at h
    cases h

/-- Once a step has taken the property from the identifier there is a call on behalf of its key. -/
theorem State.callsFor_ne_nil_of_takes {done : List Step} {step : Step} (h : step.Takes id name) :
    (step.apply setting (replay setting {} done)).callsFor (cacheKey id name) ≠ [] := by
  obtain ⟨kind, endpoint, rfl, hmapped⟩ := h
  -- What is kept by then was asked for before; what is not kept is asked for by the step.
  cases hkept : (replay setting {} done).kept? setting (cacheKey id name) with
  | some series =>
      have hcalls := callsFor_ne_nil_of_kept hkept
      exact callsFor_replay_ne_nil [.access (.entity ⟨kind, id⟩) name] hcalls
  | none =>
      have hentity : (Entity.mk kind id).kind.endpoint? name = some endpoint := hmapped
      rw [Step.apply, callsFor, fetches_property_of_missing hentity hkept, List.filter_append]
      refine List.append_ne_nil_of_right_ne_nil _ ?_
      simp [State.fetch, Fetch.key]

/-- There are calls on behalf of a key just if the run takes the property from the identifier. -/
theorem State.callsFor_replay_ne_nil_iff (hmapped : kind.endpoint? name = some endpoint)
    (steps : List Step) :
    (replay setting {} steps).callsFor (cacheKey id name) ≠ [] ↔
      ∃ step ∈ steps, step.Takes id name := by
  constructor
  · intro hcalls
    by_cases htaken : ∃ step ∈ steps, step.Takes id name
    · exact htaken
    · have hcell : (replay setting {} steps).cell id name = State.cell {} id name :=
        cell_replay hmapped fun step hstep htakes => htaken ⟨step, hstep, htakes⟩
      exact absurd (congrArg Cell.calls hcell) hcalls
  · rintro ⟨step, hstep, htakes⟩
    obtain ⟨done, rest, rfl⟩ := List.append_of_mem hstep
    rw [replay_append, replay_cons]
    exact callsFor_replay_ne_nil rest (callsFor_ne_nil_of_takes htakes)

end Cells

/-! ## Keys and cells -/

/-- Two properties have one key only if they are the same property of the same identifier, whatever
text the identifiers are. So an access does not reach the cell of another property or of another
identifier, and in a run the calls on behalf of a key are those for one property of one identifier;
there are such calls just if the run takes it. -/
theorem Script.cells_apart {kind kind' : EntityKind} {p q : String} {endpoint endpoint' : Endpoint}
    (hp : kind.endpoint? p = some endpoint) (hq : kind'.endpoint? q = some endpoint')
    (id id' : String) :
    (cacheKey id p = cacheKey id' q ↔ id = id' ∧ p = q) ∧
    (¬(id = id' ∧ p = q) → ∀ setting s,
      (property (.entity ⟨kind, id⟩) p setting s).2.cell id' q = s.cell id' q) ∧
    ∀ (script : Script) setting,
      (∀ fetch ∈ (script.exec setting {}).2.callsFor (cacheKey id' q),
        fetch.entity.id = id' ∧ fetch.property = q) ∧
      ((script.exec setting {}).2.callsFor (cacheKey id' q) ≠ [] ↔
        ∃ step ∈ script.trace setting {}, step.Takes id' q) := by
  refine ⟨⟨cacheKey_inj_of_endpoint? hp hq, ?_⟩, fun hother setting s => ?_,
    fun script setting => ?_⟩
  · rintro ⟨rfl, rfl⟩
    rfl
  · have hstep : ¬(Step.access (.entity ⟨kind, id⟩) p).Takes id' q := by
      rintro ⟨_, _, heq, -⟩
      cases heq
      exact hother ⟨rfl, rfl⟩
    exact Step.cell_apply hq hstep
  · rw [← script.traces_exec setting {}]
    refine ⟨fun fetch hfetch => ?_, State.callsFor_replay_ne_nil_iff hq _⟩
    obtain ⟨hmade, hkey⟩ := List.mem_filter.mp hfetch
    obtain ⟨made, hgrows, hmapped⟩ := fetches_replay setting {} (script.trace setting {})
    rw [hgrows] at hmade
    exact cacheKey_inj_of_endpoint? (hmapped fetch hmade) hq (beq_iff_eq.mp hkey)

/-- A script that takes the total value locked in a protocol whose identifier ends like the key of
another one. -/
def Script.takingDashed : Script where
  statements := [.highlight [.reading .protocol "x-tvl" "tvl"]]

theorem Script.cells_apart_dashed :
    EntityKind.protocol.endpoint? "tvl" = some .protocolTvl ∧
    EntityKind.chain.endpoint? "tvl" = some .chainTvl ∧
    cacheKey "x-tvl" "tvl" ≠ cacheKey "x" "tvl" ∧
    ((takingDashed.exec (.steady Call.toldApart {} 0) {}).2.callsFor (cacheKey "x-tvl" "tvl")).map
      (fun fetch => fetch.entity.id) = ["x-tvl"] ∧
    ¬∃ step ∈ takingDashed.trace (.steady Call.toldApart {} 0) {}, step.Takes "x" "tvl" := by
  have hprotocol : EntityKind.protocol.endpoint? "tvl" = some .protocolTvl := by decide
  have hchain : EntityKind.chain.endpoint? "tvl" = some .chainTvl := by decide
  obtain ⟨hkey, -, hruns⟩ := cells_apart hprotocol hchain "x-tvl" "x"
  obtain ⟨-, hcalls⟩ := hruns takingDashed (.steady Call.toldApart {} 0)
  refine ⟨hprotocol, hchain, fun heq => absurd (hkey.mp heq).1 (by decide), by decide +kernel,
    fun htaken => hcalls.mpr htaken (by decide +kernel)⟩

/-- With a dash in its name a property would share the key of another identifier. -/
example : cacheKey "x-tvl" "fees" = cacheKey "x" "tvl-fees" := by decide +kernel

end MetricScript
