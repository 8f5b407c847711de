import MetricScript.Proofs.Cache.Provenance
import MetricScript.Proofs.Trace.Frame

/-! # A series is fetched once

As long as the source has errors or crashes to answer, nothing is kept under a key and every access
asks again. The first series that comes back is kept for the rest of the run, and the source is not
asked for that key any more. -/

namespace MetricScript

open Run Trace

/-- Whether an answer is a series. -/
def Answer.isSeries : Answer → Bool
  | .series _ => true
  | _ => false

theorem Answer.eq_series_of_isSeries {answer : Answer} (h : answer.isSeries = true) :
    ∃ series, answer = .series series := by
  cases answer with
  | series series => exact ⟨series, rfl⟩
  | error e => cases h
  | crash message => cases h

/-- The calls made on behalf of a key, in order of time. -/
def State.callsFor (s : State) (key : String) : List Fetch :=
  s.fetches.filter fun fetch => fetch.key == key

/-- What is kept under a key, by the calls made on its behalf. -/
inductive Settles : List Fetch → Option Series → Prop where
  /-- No call has given a series, and nothing is kept. -/
  | pending {calls : List Fetch} (h : ∀ fetch ∈ calls, fetch.answer.isSeries = false) :
      Settles calls none
  /-- The last call, and it alone, has given a series, which is kept. -/
  | settled {earlier : List Fetch} {fetch : Fetch} {series : Series}
      (h : ∀ fetch ∈ earlier, fetch.answer.isSeries = false)
      (hlast : fetch.answer = .series series) : Settles (earlier ++ [fetch]) (some series)

/-- For every key, what is kept is what the calls made on its behalf have settled. -/
def State.Coherent (s : State) : Prop :=
  ∀ key, Settles (s.callsFor key) (s.cache.find? key)

/-! ## Calls on behalf of a key -/

section Calls

variable {setting : Setting} {s : State} {entity : Entity} {name : String} {endpoint : Endpoint}

theorem State.callsFor_asked_self (s : State) (fetch : Fetch) :
    (s.asked fetch).callsFor fetch.key = s.callsFor fetch.key ++ [fetch] := by
  simp [callsFor, asked]

theorem State.callsFor_asked_of_ne (s : State) {fetch : Fetch} {key : String}
    (h : fetch.key ≠ key) : (s.asked fetch).callsFor key = s.callsFor key := by
  simp [callsFor, asked, h]

theorem State.callsFor_keeping (s : State) (setting : Setting) (kept key : String)
    (series : Series) : (s.keeping setting kept series).callsFor key = s.callsFor key := by
  obtain ⟨cache, hkeeping⟩ := s.exists_keeping_eq setting kept series
  rw [hkeeping]
  rfl

theorem Settles.append_of_not_series {calls : List Fetch} {fetch : Fetch}
    (h : Settles calls none) (hfetch : fetch.answer.isSeries = false) :
    Settles (calls ++ [fetch]) none := by
  cases h with
  | pending h => exact .pending (by simpa [or_imp, forall_and] using ⟨h, hfetch⟩)

theorem Settles.append_of_series {calls : List Fetch} {fetch : Fetch} {series : Series}
    (h : Settles calls none) (hfetch : fetch.answer = .series series) :
    Settles (calls ++ [fetch]) (some series) := by
  cases h with
  | pending h => exact .settled h hfetch

/-- A series among the answers is the last of them and the only one, and it is kept. -/
theorem Settles.of_series {earlier later : List Fetch} {fetch : Fetch} {kept : Option Series}
    {series : Series} (h : Settles (earlier ++ fetch :: later) kept)
    (hfetch : fetch.answer = .series series) :
    later = [] ∧ (∀ other ∈ earlier, other.answer.isSeries = false) ∧ kept = some series := by
  generalize hcalls : earlier ++ fetch :: later = calls at h
  cases h with
  | pending hnone =>
      have hfalse := hnone fetch (by simp [← hcalls])
      simp [hfetch, Answer.isSeries] at hfalse
  | @settled front last t hnone hlast =>
      rcases List.eq_nil_or_concat later with rfl | ⟨others, final, rfl⟩
      · obtain ⟨rfl, hsame⟩ := List.append_inj' hcalls rfl
        obtain rfl : fetch = last := by simpa using hsame
        cases hfetch.symm.trans hlast
        exact ⟨rfl, hnone, rfl⟩
      · -- Then the call stands among those before the last one, none of which gave a series.
        have hfront : earlier ++ fetch :: others = front := by
          have hassoc : (earlier ++ fetch :: others) ++ [final] = front ++ [last] := by
            simpa using hcalls
          exact (List.append_inj' hassoc rfl).1
        have hfalse := hnone fetch (by simp [← hfront])
        simp [hfetch, Answer.isSeries] at hfalse

theorem Settles.eq_none {calls : List Fetch} {kept : Option Series} (h : Settles calls kept)
    (hnone : ∀ fetch ∈ calls, fetch.answer.isSeries = false) : kept = none := by
  cases h with
  | pending h => rfl
  | settled h hlast =>
      have hfalse := hnone _ (List.mem_append_right _ List.mem_cons_self)
      simp [hlast, Answer.isSeries] at hfalse

theorem Settles.ne_nil {calls : List Fetch} {series : Series} (h : Settles calls (some series)) :
    calls ≠ [] := by
  cases h with
  | settled _ _ => simp

end Calls

/-! ## Steps -/

section Steps

variable {setting : Setting} {s : State} {key : String} {series : Series}

theorem State.coherent_initial : State.Coherent {} := fun _ => .pending (by simp [State.callsFor])

/-- Asking for a property of which nothing is kept, with whatever comes back. -/
theorem State.Coherent.fetched (hkeeps : setting.keepsSeries = true) (hs : s.Coherent)
    {fetch : Fetch} (hmissing : s.cache.find? fetch.key = none) :
    (fetch.answer.isSeries = false → (s.asked fetch).Coherent) ∧
      ∀ series, fetch.answer = .series series →
        ((s.asked fetch).keeping setting fetch.key series).Coherent := by
  have hpending : Settles (s.callsFor fetch.key) none := hmissing ▸ hs fetch.key
  refine ⟨fun hanswer other => ?_, fun series hanswer other => ?_⟩
  · change Settles _ (s.cache.find? other)
    by_cases hkey : fetch.key = other
    · subst hkey
      rw [State.callsFor_asked_self, hmissing]
      exact hpending.append_of_not_series hanswer
    · rw [State.callsFor_asked_of_ne s hkey]
      exact hs other
  · rw [State.callsFor_keeping, State.find?_cache_keeping]
    by_cases hkey : fetch.key = other
    · subst hkey
      rw [State.callsFor_asked_self, if_pos ⟨hkeeps, rfl⟩]
      exact hpending.append_of_series hanswer
    · rw [State.callsFor_asked_of_ne s hkey, if_neg fun h => hkey h.2]
      exact hs other

theorem Step.coherent (hkeeps : setting.keepsSeries = true) {step : Step} (hs : s.Coherent) :
    (step.apply setting s).Coherent := by
  cases step with
  | access base name =>
      rcases property_state_cases base name setting s with
        hstate | ⟨entity, endpoint, -, -, hmissing, hstate⟩
      · simpa only [apply, hstate] using hs
      · rw [State.kept?, if_pos hkeeps] at hmissing
        have hmissing' : s.cache.find? (s.fetch setting entity name endpoint).key = none := hmissing
        obtain ⟨hpending, hsettled⟩ := hs.fetched hkeeps hmissing'
        rcases hstate with ⟨hanswer, hstate⟩ | ⟨series, hanswer, hstate⟩
        · simp only [apply, hstate]
          refine hpending ?_
          cases h : (s.fetch setting entity name endpoint).answer with
          | series series => exact absurd h (hanswer series)
          | error e => rfl
          | crash message => rfl
        · simp only [apply, hstate]
          exact hsettled series hanswer
  | _ => exact hs

theorem State.coherent_replay (hkeeps : setting.keepsSeries = true) (steps : List Step) :
    (replay setting {} steps).Coherent :=
  (throughout_of_preserved State.coherent_initial fun _ _ _ => Step.coherent hkeeps).last

/-- Once a series is kept under a key, the source is not asked for the key. -/
theorem Step.callsFor_of_kept (hkeeps : setting.keepsSeries = true) (step : Step)
    (h : s.cache.find? key = some series) :
    (step.apply setting s).callsFor key = s.callsFor key := by
  cases step with
  | access base name =>
      rcases property_state_cases base name setting s with
        hstate | ⟨entity, endpoint, -, -, hmissing, hstate⟩
      · simp only [apply, hstate]
      · have hne : (s.fetch setting entity name endpoint).key ≠ key := by
          rintro rfl
          rw [State.kept?, if_pos hkeeps] at hmissing
          cases hmissing.symm.trans h
        rcases hstate with ⟨-, hstate⟩ | ⟨fetched, -, hstate⟩
        · rw [apply, hstate, State.callsFor_asked_of_ne s hne]
        · rw [apply, hstate, State.callsFor_keeping, State.callsFor_asked_of_ne s hne]
  | _ => rfl

theorem State.callsFor_replay_of_kept (hkeeps : setting.keepsSeries = true) (steps : List Step)
    (h : s.cache.find? key = some series) :
    (replay setting s steps).callsFor key = s.callsFor key := by
  induction steps generalizing s with
  | nil => rfl
  | cons step rest ih =>
      rw [replay_cons, ih (step.find?_cache setting h), step.callsFor_of_kept hkeeps h]

end Steps

/-! ## Runs -/

/-- Of the calls made on behalf of a key at most one gives a series, and that is the last one. The
series is kept from then on, and every access to the key obtains it without a call. As long as no
call has given a series nothing is kept under the key, and every access asks the source. The run
goes on from the states that this is about, and in the end its report has what the calls have
settled. -/
theorem Script.series_fetched_once (script : Script) (setting : Setting)
    (done more others : List Step) (key : String) :
    setting.keepsSeries = true → script.trace setting {} = done ++ more ++ others →
    (script.exec setting {}).2 = replay setting (replay setting {} (done ++ more)) others ∧
    (∀ earlier fetch rest series,
      (replay setting {} done).callsFor key = earlier ++ fetch :: rest →
      fetch.answer = .series series →
        (∀ other ∈ earlier, other.answer.isSeries = false) ∧ rest = [] ∧
        (replay setting {} (done ++ more)).callsFor key = earlier ++ [fetch] ∧
        (replay setting {} (done ++ more)).cache.find? key = some series ∧
        ∀ (entity : Entity) name endpoint, entity.kind.endpoint? name = some endpoint →
          cacheKey entity.id name = key →
            property (.entity entity) name setting (replay setting {} (done ++ more)) =
              (.ok (.series series), replay setting {} (done ++ more))) ∧
    ((∀ fetch ∈ (replay setting {} done).callsFor key, fetch.answer.isSeries = false) →
      (replay setting {} done).cache.find? key = none ∧
      ∀ (entity : Entity) name endpoint, entity.kind.endpoint? name = some endpoint →
        cacheKey entity.id name = key →
          (property (.entity entity) name setting (replay setting {} done)).2.fetches =
            (replay setting {} done).fetches ++
              [(replay setting {} done).fetch setting entity name endpoint]) ∧
    Settles ((script.exec setting {}).2.callsFor key)
      ((script.interpret setting).cache.find? key) := by
  intro hkeeps hrun
  have hdone := State.coherent_replay hkeeps done key
  refine ⟨?_, fun earlier fetch rest series hcalls hanswer => ?_, fun hnone => ?_, ?_⟩
  · rw [← script.traces_exec, hrun, replay_append]
  · rw [hcalls] at hdone
    obtain ⟨rfl, hearlier, hkept⟩ := hdone.of_series hanswer
    have hkept' : (replay setting _ more).cache.find? key = some series :=
      find?_cache_replay more hkept
    have hcalls' := State.callsFor_replay_of_kept hkeeps more hkept
    rw [← replay_append] at hkept' hcalls'
    refine ⟨hearlier, rfl, hcalls'.trans hcalls, hkept', ?_⟩
    rintro entity name endpoint hmapped rfl
    exact entityProperty_of_kept hmapped ((if_pos hkeeps).trans hkept')
  · have hmissing := hdone.eq_none hnone
    refine ⟨hmissing, ?_⟩
    rintro entity name endpoint hmapped rfl
    exact fetches_property_of_missing hmapped ((if_pos hkeeps).trans hmissing)
  · have hend := State.coherent_replay hkeeps (script.trace setting {}) key
    rwa [script.traces_exec setting {}] at hend

/-- A setting in which the source has an error and then a crash to answer before it gives a
series. -/
def Setting.recovering : Setting where
  source := .scripted
    [⟨⟨.protocolTvl, "x"⟩, [some (.error (.unavailable "busy")), some (.crash none)]⟩]
    (.ofData [(⟨.protocolTvl, "x"⟩, .single 1 none)])

/-- A script that takes the same property four times. -/
def Script.insisting : Script where
  statements := List.replicate 4 (.assignment "a" (some (.reading .protocol "x" "tvl")))

theorem Script.series_fetched_once_insisting :
    Setting.recovering.keepsSeries = true ∧
    ∃ done more others, Script.insisting.trace .recovering {} = done ++ more ++ others ∧
      (Script.insisting.exec .recovering {}).2 =
        replay .recovering (replay .recovering {} (done ++ more)) others ∧
      ((replay .recovering {} done).callsFor "x-tvl").map (·.answer.isSeries) =
        [false, false, true] ∧
      ((replay .recovering {} (done ++ more)).callsFor "x-tvl").length = 3 ∧
      ∃ series, (replay .recovering {} (done ++ more)).cache.find? "x-tvl" = some series ∧
        property (.entity ⟨.protocol, "x"⟩) "tvl" .recovering
          (replay .recovering {} (done ++ more)) =
            (.ok (.series series), replay .recovering {} (done ++ more)) := by
  have hrun : Script.insisting.trace .recovering {} =
      (Script.insisting.trace .recovering {}).take 10 ++
        (Script.insisting.trace .recovering {}).drop 10 ++ [] := by
    rw [List.append_nil, List.take_append_drop]
  have hanswers : ((replay .recovering {}
      ((Script.insisting.trace .recovering {}).take 10)).callsFor "x-tvl").map
        (·.answer.isSeries) = [false, false] ++ [true] := by
    decide +kernel
  obtain ⟨earlier, last, hcalls, hearlier, hlast⟩ := List.map_eq_append_iff.mp hanswers
  obtain ⟨fetch, rfl, hfetch⟩ := List.map_eq_singleton_iff.mp hlast
  obtain ⟨series, hseries⟩ := Answer.eq_series_of_isSeries hfetch
  obtain ⟨hend, hfetched, -, -⟩ := series_fetched_once .insisting .recovering _ _ _ "x-tvl" rfl hrun
  obtain ⟨-, -, hcalls', hkept, haccess⟩ := hfetched earlier fetch [] series hcalls hseries
  have htwo : earlier.length = 2 := by
    simpa using congrArg List.length hearlier
  refine ⟨rfl, _, _, _, hrun, hend, hanswers, ?_, series, hkept,
    haccess ⟨.protocol, "x"⟩ "tvl" .protocolTvl (by decide) (by decide)⟩
  rw [hcalls', List.length_append, htwo, List.length_singleton]

end MetricScript
