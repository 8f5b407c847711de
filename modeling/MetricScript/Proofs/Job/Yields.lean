import Mathlib.Algebra.Order.Group.Multiset
import MetricScript.Proofs.Cache.Transparent
import MetricScript.Proofs.Job.Outcome

/-! # What a job yields

A job may yield the same whatever is done in between its polls: it ends with the same result, does
the same to variables, plots and highlights, and records the same failures. Polling it does not
change what it yields, and so it is what is there in the end. -/

namespace MetricScript

open Run

/-- The source never crashes. -/
def Comparison.Calm (c : Comparison) : Prop :=
  ∀ call message, c.answer call ≠ .crash message

/-- What a state has to show but what went wrong. -/
structure Board where
  bindings : NameMap Value
  plots : List Plot
  highlights : List Highlight

def State.board (s : State) : Board :=
  ⟨s.bindings, s.plots, s.highlights⟩

/-- The result of what did not crash. -/
def resultOf {α : Type} : Except Stop α → Option (Except Failure α)
  | .ok a => some (.ok a)
  | .error (.failed f) => some (.error f)
  | .error (.crashed _) => none

/-- The failure that a result is, if it is one. -/
def failuresOf {α : Type} (result : Option (Except Failure α)) : Multiset Failure :=
  ↑(result.bind failureOf?).toList

namespace Job

section Yields

variable (c : Comparison) (keeps : Bool) (entities : List Entity)

mutual

/-- The job ends with this result, or crashes if there is none, turns one board into the other and
records these failures on the way, whatever others do between its polls, as long as metrics are
taken of the given handles only. If it is still then it never changes the board. Nothing is said
about the failures if the source may crash. -/
def Yields {α : Type} :
    Job α → (still : Bool) → Board → Option (Except Failure α) → Board → Multiset Failure → Prop
  | .ended r, _, before, result, after, recorded =>
    resultOf r = result ∧ before = after ∧ recorded = 0
  | .doing x next, still, before, result, after, recorded =>
    ∀ s, s.KeepsAnswers c.answer entities → s.board = before →
      (x (c.setting keeps) s).2.KeepsAnswers c.answer entities ∧
        (still = true → (x (c.setting keeps) s).2.board = before) ∧
        ∃ now later, (x (c.setting keeps) s).2.failures = s.failures ++ now ∧
          recorded = ↑now + later ∧
          match x (c.setting keeps) s with
          | (.ok b, s') => (next b).Yields still s'.board result after later
          | (.error stop, s') => resultOf (.error stop) = result ∧ s'.board = after ∧ later = 0
  | .entering entity property next, still, before, result, after, recorded =>
    entity ∈ entities → ∀ number,
      (next ⟨cacheKey entity.id property, number⟩).Yields still before result after recorded
  | .waiting _ rest, still, before, result, after, recorded =>
    rest.Yields still before result after recorded
  | .leaving _ rest, still, before, result, after, recorded =>
    rest.Yields still before result after recorded
  | .resting _ rest, still, before, result, after, recorded =>
    rest.Yields still before result after recorded
  | .attempting body next, still, before, result, after, recorded =>
    ∃ found between first, body.Yields still before found between first ∧
      match found with
      | some r => ∃ later, recorded = first + later ∧
          (next r).Yields still between result after later
      | none => ¬ c.Calm ∧ result = none ∧ between = after
  | .joined children next, still, before, result, after, recorded =>
    ∃ found first, YieldsAll children before found first ∧
      match found.mapM id with
      | some results => ∃ later, recorded = first + later ∧
          (next results).Yields still before result after later
      | none => ¬ c.Calm ∧ result = none ∧ before = after
  | .contained body rest, still, before, result, after, recorded =>
    ∃ found between first later, body.Yields still before found between first ∧
      (c.Calm → found ≠ none) ∧ recorded = first + failuresOf found + later ∧
      rest.Yields still between result after later
termination_by structural job => job

/-- Each of the jobs yields its result, and leaves the board alone. -/
def YieldsAll : List (Job Value) → Board → List (Option (Except Failure Value)) →
    Multiset Failure → Prop
  | [], _, results, recorded => results = [] ∧ recorded = 0
  | job :: rest, board, results, recorded =>
    ∃ first others recorded₁ recorded₂, results = first :: others ∧
      recorded = recorded₁ + recorded₂ ∧ job.Yields true board first board recorded₁ ∧
      YieldsAll rest board others recorded₂
termination_by structural jobs => jobs

end

end Yields

end Job

/-- What comes of polling a job in a state yields the result. -/
def Poll.Yields {α : Type} (c : Comparison) (keeps : Bool) (entities : List Entity)
    (p : Poll α) (s : State) (still : Bool) (result : Option (Except Failure α)) (after : Board)
    (recorded : Multiset Failure) : Prop :=
  p.scene.state.KeepsAnswers c.answer entities ∧
    (still = true → p.scene.state.board = s.board) ∧
    ∃ now later, p.scene.state.failures = s.failures ++ now ∧
      (c.Calm → recorded = ↑now + later) ∧
      match p with
      | .ready r scene => resultOf r = result ∧ scene.state.board = after ∧ later = 0
      | .pending rest scene =>
        rest.Yields c keeps entities still scene.state.board result after later

/-- What becomes of a failure or a crash in the end is that it is recorded. -/
theorem Scene.settled_state (scene : Scene) (setting : Setting) (r : Except Stop Unit) :
    ∃ told, (scene.settled setting r).state = scene.state.recording told ∧
      (resultOf r ≠ none → (told : Multiset Failure) = failuresOf (resultOf r)) := by
  rcases r with (f | message) | ⟨⟩
  · exact ⟨[f], rfl, fun _ => rfl⟩
  · exact ⟨[.crash (message.getD namelessCrash)], rfl, fun h => absurd rfl h⟩
  · exact ⟨[], (State.recording_nil _).symm, fun _ => rfl⟩

theorem Poll.Yields.goesOn {α : Type} {c : Comparison} {keeps : Bool} {entities : List Entity}
    {p : Poll α} {s s' : State} {still : Bool} {result : Option (Except Failure α)} {after : Board}
    {recorded recorded' : Multiset Failure} {now : List Failure}
    (h : p.Yields c keeps entities s' still result after recorded')
    (hboard : still = true → s'.board = s.board) (hfailures : s'.failures = s.failures ++ now)
    (hrecorded : c.Calm → recorded = ↑now + recorded') :
    p.Yields c keeps entities s still result after recorded := by
  obtain ⟨hkept, hstill, now', later, hfailures', hrecorded', hend⟩ := h
  refine ⟨hkept, fun hs => (hstill hs).trans (hboard hs), now ++ now', later, ?_, fun hcalm => ?_,
    hend⟩
  · rw [hfailures', hfailures, List.append_assoc]
  · rw [hrecorded hcalm, hrecorded' hcalm, ← Multiset.coe_add, Multiset.add_assoc]

namespace Job

/-! ## Polls -/

section Polls

variable {α β : Type} {c : Comparison} {keeps : Bool} {entities : List Entity}

theorem eq_some_of_result? {job : Job Value} {r : Except Failure Value} {still : Bool}
    {before after : Board} {result : Option (Except Failure Value)} {recorded : Multiset Failure}
    (hr : job.result? = some r)
    (h : job.Yields c keeps entities still before result after recorded) :
    result = some r ∧ recorded = 0 := by
  match job with
  | .ended (.ok value) =>
      cases hr
      exact ⟨h.1.symm, h.2.2⟩
  | .ended (.error (.failed f)) =>
      cases hr
      exact ⟨h.1.symm, h.2.2⟩

theorem mapM_of_results {jobs : List (Job Value)} {results : List (Except Failure Value)}
    {board : Board} {found : List (Option (Except Failure Value))} {recorded : Multiset Failure}
    (hresults : jobs.mapM result? = some results)
    (h : YieldsAll c keeps entities jobs board found recorded) :
    found.mapM id = some results ∧ recorded = 0 := by
  induction jobs generalizing results found recorded with
  | nil =>
      obtain ⟨rfl, rfl⟩ := h
      cases hresults
      exact ⟨rfl, rfl⟩
  | cons job rest ih =>
      obtain ⟨first, others, recorded₁, recorded₂, rfl, rfl, hfirst, hothers⟩ := h
      rw [List.mapM_cons] at hresults
      obtain ⟨r, hr, hresults⟩ := Option.bind_eq_some_iff.mp hresults
      obtain ⟨rs, hrs, hresults⟩ := Option.bind_eq_some_iff.mp hresults
      cases hresults
      obtain ⟨rfl, rfl⟩ := eq_some_of_result? hr hfirst
      obtain ⟨hmap, rfl⟩ := ih hrs hothers
      rw [List.mapM_cons, hmap]
      exact ⟨rfl, rfl⟩

theorem mapM_of_mem_none {found : List (Option (Except Failure Value))} (h : none ∈ found) :
    found.mapM id = none := by
  induction found with
  | nil => cases h
  | cons first rest ih =>
      rw [List.mapM_cons]
      rcases List.mem_cons.mp h with hfirst | hrest
      · subst hfirst
        rfl
      · rw [ih hrest]
        cases first <;> rfl

/-- What is left of a job that leaves the board alone. -/
theorem left_yields {p : Poll Value} {s : State} {result : Option (Except Failure Value)}
    {recorded : Multiset Failure}
    (h : p.Yields c keeps entities s true result s.board recorded) :
    p.left.2.state.board = s.board ∧ p.left.2.state.KeepsAnswers c.answer entities ∧
      ∃ now later, p.left.2.state.failures = s.failures ++ now ∧
        match p.left.1 with
        | .ok job => (c.Calm → recorded = ↑now + later) ∧
            job.Yields c keeps entities true s.board result s.board later
        | .error stop => result = none ∧ ∃ message, stop = .crashed message := by
  obtain ⟨hkept, hstill, now, later, hfailures, hrecorded, hend⟩ := h
  rw [Poll.left_scene]
  refine ⟨hstill rfl, hkept, now, later, hfailures, ?_⟩
  rcases p with ⟨(f | message) | value, scene⟩ | ⟨rest, scene⟩
  · exact ⟨hrecorded, hend.1, rfl, hend.2.2⟩
  · exact ⟨hend.1.symm, message, rfl⟩
  · exact ⟨hrecorded, hend.1, rfl, hend.2.2⟩
  · exact ⟨hrecorded, hstill rfl ▸ hend⟩

mutual

/-- Polling a job does not change what it yields. -/
theorem poll_yields {α : Type} (job : Job α) (scene : Scene) {still : Bool}
    {result : Option (Except Failure α)} {after : Board} {recorded : Multiset Failure}
    (h : job.Yields c keeps entities still scene.state.board result after recorded)
    (hkept : scene.state.KeepsAnswers c.answer entities)
    (hlog : (job.poll (c.setting keeps) scene).scene.handles ⊆ entities) :
    (job.poll (c.setting keeps) scene).Yields c keeps entities scene.state still result after
      recorded := by
  match job with
  | .ended r =>
      obtain ⟨hr, hboard, rfl⟩ := h
      exact ⟨hkept, fun _ => rfl, [], 0, (List.append_nil _).symm, fun _ => rfl, hr, hboard, rfl⟩
  | .doing x next =>
      obtain ⟨hkept', hstill, now, later, hfailures, hrecorded, hend⟩ := h scene.state hkept rfl
      simp only [poll] at hlog ⊢
      rcases hx : x (c.setting keeps) scene.state with ⟨stop | b, s'⟩ <;>
        simp only [hx] at hend hlog hkept' hstill hfailures
      · exact ⟨hkept', hstill, now, later, hfailures, fun _ => hrecorded, hend⟩
      · exact (poll_yields (next b) { scene with state := s' } hend hkept' hlog).goesOn hstill
          hfailures fun _ => hrecorded
  | .entering entity property next =>
      have hentity : entity ∈ entities :=
        hlog (handles_subset_poll _ (next _) _ (List.mem_append_right _ List.mem_cons_self))
      exact poll_yields (next _) (scene.entered entity property) (h hentity _) hkept hlog
  | .waiting ticket rest =>
      simp only [poll] at hlog ⊢
      split at hlog
      next hturn =>
          rw [if_pos hturn]
          exact poll_yields rest scene h hkept hlog
      next hturn =>
          rw [if_neg hturn]
          exact ⟨hkept, fun _ => rfl, [], recorded, (List.append_nil _).symm,
            fun _ => (Multiset.zero_add _).symm, h⟩
  | .leaving ticket rest => exact poll_yields rest (scene.left ticket) h hkept hlog
  | .resting 0 rest => exact poll_yields rest scene h hkept hlog
  | .resting (polls + 1) rest =>
      exact ⟨hkept, fun _ => rfl, [], recorded, (List.append_nil _).symm,
        fun _ => (Multiset.zero_add _).symm, h⟩
  | .attempting body next =>
      simp only [Yields] at h
      obtain ⟨found, between, first, hbody, h⟩ := h
      have hpoll := poll_yields body scene hbody hkept
      simp only [poll] at hlog ⊢
      rcases heq : body.poll (c.setting keeps) scene with
          ⟨(f | message) | value, scene'⟩ | ⟨rest, scene'⟩ <;>
        simp only [heq] at hlog hpoll
      · obtain ⟨hkept', hstill, now, _, hfailures, hfirst, rfl, rfl, rfl⟩ :=
          hpoll (List.Subset.trans (handles_subset_poll _ (next (.error f)) scene') hlog)
        obtain ⟨later, rfl, h⟩ := h
        exact (poll_yields (next (.error f)) scene' h hkept' hlog).goesOn hstill hfailures
          fun hcalm => by rw [hfirst hcalm, Multiset.add_zero]
      · -- A crash goes through, and what was to be recorded after it is lost.
        obtain ⟨hkept', hstill, now, later, hfailures, -, rfl, rfl, hlater⟩ := hpoll hlog
        exact ⟨hkept', hstill, now, later, hfailures, fun hcalm => absurd hcalm h.1, h.2.1.symm,
          h.2.2, hlater⟩
      · obtain ⟨hkept', hstill, now, _, hfailures, hfirst, rfl, rfl, rfl⟩ :=
          hpoll (List.Subset.trans (handles_subset_poll _ (next (.ok value)) scene') hlog)
        obtain ⟨later, rfl, h⟩ := h
        exact (poll_yields (next (.ok value)) scene' h hkept' hlog).goesOn hstill hfailures
          fun hcalm => by rw [hfirst hcalm, Multiset.add_zero]
      · obtain ⟨hkept', hstill, now, left, hfailures, hfirst, hrest⟩ := hpoll hlog
        cases found with
        | some r =>
            obtain ⟨later, rfl, h⟩ := h
            refine ⟨hkept', hstill, now, left + later, hfailures, fun hcalm => ?_, ?_⟩
            · rw [hfirst hcalm, Multiset.add_assoc]
            · simp only [Yields]
              exact ⟨some r, between, left, hrest, later, rfl, h⟩
        | none =>
            refine ⟨hkept', hstill, now, left, hfailures, fun hcalm => absurd hcalm h.1, ?_⟩
            simp only [Yields]
            exact ⟨none, between, left, hrest, h⟩
  | .joined children next =>
      simp only [Yields] at h
      obtain ⟨found, first, hchildren, h⟩ := h
      have hpolls := pollAll_yields children scene hchildren hkept
      simp only [poll] at hlog ⊢
      rcases heq : pollAll (c.setting keeps) children scene with ⟨stop | jobs, scene'⟩ <;>
        simp only [heq] at hlog hpolls
      · -- Whichever child crashes first, the job crashes as it would over any other one.
        obtain ⟨hboard, hkept', now, left, hfailures, hnone, message, rfl⟩ := hpolls hlog
        rw [mapM_of_mem_none hnone] at h
        exact ⟨hkept', fun _ => hboard, now, 0, hfailures, fun hcalm => absurd hcalm h.1,
          h.2.1.symm, hboard.trans h.2.2, rfl⟩
      · rcases hresults : jobs.mapM result? with _ | results <;> simp only [hresults] at hlog ⊢
        · obtain ⟨hboard, hkept', now, left, hfailures, hfirst, hjobs⟩ := hpolls hlog
          rw [← hboard] at hjobs
          cases hfound : found.mapM id with
          | some results =>
              rw [hfound, ← hboard] at h
              obtain ⟨later, rfl, h⟩ := h
              refine ⟨hkept', fun _ => hboard, now, left + later, hfailures, fun hcalm => ?_, ?_⟩
              · rw [hfirst hcalm, Multiset.add_assoc]
              · simp only [Yields]
                exact ⟨found, left, hjobs, by rw [hfound]; exact ⟨later, rfl, h⟩⟩
          | none =>
              rw [hfound, ← hboard] at h
              refine ⟨hkept', fun _ => hboard, now, left, hfailures,
                fun hcalm => absurd hcalm h.1, ?_⟩
              simp only [Yields]
              exact ⟨found, left, hjobs, by rw [hfound]; exact h⟩
        · obtain ⟨hboard, hkept', now, left, hfailures, hfirst, hjobs⟩ :=
            hpolls (List.Subset.trans (handles_subset_poll _ (next results) scene') hlog)
          obtain ⟨hfound, rfl⟩ := mapM_of_results hresults hjobs
          rw [hfound, ← hboard] at h
          obtain ⟨later, rfl, h⟩ := h
          exact (poll_yields (next results) scene' h hkept' hlog).goesOn (fun _ => hboard) hfailures
            fun hcalm => by rw [hfirst hcalm, Multiset.add_zero]
  | .contained body rest =>
      simp only [Yields] at h
      obtain ⟨found, between, first, later, hbody, hcrash, rfl, hrest⟩ := h
      have hpoll := poll_yields body scene hbody hkept
      simp only [poll] at hlog ⊢
      rcases heq : body.poll (c.setting keeps) scene with ⟨r, scene'⟩ | ⟨left, scene'⟩ <;>
        simp only [heq] at hlog hpoll
      · let settled := scene'.settled (c.setting keeps) r
        obtain ⟨hkept', hstill, now, _, hfailures, hfirst, rfl, rfl, rfl⟩ :=
          hpoll (List.Subset.trans (handles_subset_poll _ rest settled) hlog)
        obtain ⟨told, htold, hsettled⟩ := scene'.settled_state (c.setting keeps) r
        have hsettledKept : settled.state.KeepsAnswers c.answer entities := by
          rw [htold]
          exact hkept'
        have htoldFailures : settled.state.failures = scene.state.failures ++ (now ++ told) := by
          rw [htold, State.failures_recording, ← List.append_assoc]
          exact congrArg (· ++ told) hfailures
        refine (poll_yields rest settled (by rw [htold]; exact hrest) hsettledKept hlog).goesOn
          (fun hs => ?_) htoldFailures fun hcalm => ?_
        · rw [htold]
          exact hstill hs
        · rw [hfirst hcalm, ← hsettled (hcrash hcalm), Multiset.add_zero, Multiset.coe_add]
      · obtain ⟨hkept', hstill, now, waiting, hfailures, hfirst, hleft⟩ := hpoll hlog
        refine ⟨hkept', hstill, now, waiting + failuresOf found + later, hfailures,
          fun hcalm => ?_, ?_⟩
        · rw [hfirst hcalm]
          simp only [Multiset.add_assoc]
        · simp only [Yields]
          exact ⟨found, between, waiting, later, hleft, hcrash, rfl, hrest⟩
termination_by structural job

theorem pollAll_yields (jobs : List (Job Value)) (scene : Scene)
    {found : List (Option (Except Failure Value))} {recorded : Multiset Failure}
    (h : YieldsAll c keeps entities jobs scene.state.board found recorded)
    (hkept : scene.state.KeepsAnswers c.answer entities)
    (hlog : (pollAll (c.setting keeps) jobs scene).2.handles ⊆ entities) :
    (pollAll (c.setting keeps) jobs scene).2.state.board = scene.state.board ∧
      (pollAll (c.setting keeps) jobs scene).2.state.KeepsAnswers c.answer entities ∧
      ∃ now later, (pollAll (c.setting keeps) jobs scene).2.state.failures =
          scene.state.failures ++ now ∧
        match (pollAll (c.setting keeps) jobs scene).1 with
        | .ok jobs' => (c.Calm → recorded = ↑now + later) ∧
            YieldsAll c keeps entities jobs' scene.state.board found later
        | .error stop => none ∈ found ∧ ∃ message, stop = .crashed message := by
  match jobs with
  | [] =>
      obtain ⟨rfl, rfl⟩ := h
      exact ⟨rfl, hkept, [], 0, (List.append_nil _).symm, fun _ => rfl, rfl, rfl⟩
  | job :: rest =>
      simp only [YieldsAll] at h
      obtain ⟨first, others, recorded₁, recorded₂, rfl, rfl, hfirst, hothers⟩ := h
      have hpoll := poll_yields job scene hfirst hkept
      simp only [pollAll] at hlog ⊢
      have hscene := (job.poll (c.setting keeps) scene).left_scene
      rcases hleft : (job.poll (c.setting keeps) scene).left with ⟨stop | job', scene'⟩ <;>
        simp only [hleft] at hlog hscene ⊢
      · rw [← hscene] at hpoll
        have hdone := left_yields (hpoll hlog)
        rw [hleft] at hdone
        obtain ⟨hboard, hkept', now, later, hfailures, rfl, hcrash⟩ := hdone
        exact ⟨hboard, hkept', now, later, hfailures, List.mem_cons_self, hcrash⟩
      · have hothersLog : (pollAll (c.setting keeps) rest scene').2.handles ⊆ entities := by
          rcases hpolls : pollAll (c.setting keeps) rest scene' with ⟨stop | rest', scene''⟩ <;>
            rw [hpolls] at hlog <;> exact hlog
        rw [← hscene] at hpoll
        have hdone := left_yields
          (hpoll (List.Subset.trans (handles_subset_pollAll _ rest scene') hothersLog))
        rw [hleft] at hdone
        obtain ⟨hboard, hkept', now, later, hfailures, hrecorded, hjob⟩ := hdone
        dsimp only at hboard hkept' hfailures
        rw [← hboard] at hothers
        obtain ⟨hboard', hkept'', now', later', hfailures', hend⟩ :=
          pollAll_yields rest scene' hothers hkept' hothersLog
        rw [hboard] at hboard' hend
        rw [hfailures, List.append_assoc] at hfailures'
        rcases hpolls : pollAll (c.setting keeps) rest scene' with ⟨stop | rest', scene''⟩ <;>
          rw [hpolls] at hboard' hkept'' hfailures' hend
        · exact ⟨hboard', hkept'', now ++ now', later + later', hfailures',
            List.mem_cons_of_mem _ hend.1, hend.2⟩
        · refine ⟨hboard', hkept'', now ++ now', later + later', hfailures', fun hcalm => ?_, ?_⟩
          · rw [hrecorded hcalm, hend.1 hcalm, ← Multiset.coe_add, add_add_add_comm]
          · simp only [YieldsAll]
            exact ⟨first, others, later, later', rfl, rfl, hjob, hend.2⟩
termination_by structural jobs

end

end Polls

end Job

end MetricScript
