import MetricScript.Proofs.Failure.Crash
import MetricScript.Proofs.Failure.Ledger

/-! # What a crash loses

Failures that are waiting when the source crashes are lost. They are those that finished arguments
have ended with, of every call, plot or highlight whose arguments are still being evaluated.
Whatever else was raised by then is recorded once, in front of the crash. -/

namespace MetricScript

open Run Trace

section Waiting

variable {setting : Setting} {s s₁ s₂ : State} {message : Option String}

namespace Expr

/-! ## What waits, by the place of the crash -/

theorem attemptAll_append (front rest : List Expr) :
    attemptAll (front ++ rest) =
      attemptAll front >>= fun results => (results ++ ·) <$> attemptAll rest := by
  induction front with
  | nil => simp only [List.nil_append, attemptAll, pure_bind, id_map']
  | cons e front ih =>
      simp only [List.cons_append, attemptAll, ih, bind_assoc, pure_bind, map_eq_pure_bind]

theorem attemptsWaiting_append {front : List Expr} {results : List (Except Failure Value)}
    (h : attemptAll front setting s = (.ok results, s₁)) (rest : List Expr) :
    attemptsWaiting (front ++ rest) setting s =
      results.filterMap failureOf? ++ attemptsWaiting rest setting s₁ := by
  induction front generalizing s results with
  | nil =>
      cases h
      rfl
  | cons e front ih =>
      rw [attemptAll] at h
      obtain ⟨result, t, hresult, h⟩ := bind_eq_ok_iff.mp h
      obtain ⟨others, t', hothers, h⟩ := bind_eq_ok_iff.mp h
      cases h
      rw [List.cons_append, attemptsWaiting, Waiting.andThen_of_ok hresult, Waiting.behind,
        ih hothers]
      cases result <;> simp [failureOf?, List.filterMap_cons]

/-- In the middle of arguments the failures of those that are finished wait, together with what
waits within the one that crashes. -/
theorem argumentsWaiting_of_crashed {front : List Expr} {e : Expr}
    {results : List (Except Failure Value)}
    (hfront : attemptAll front setting s = (.ok results, s₁))
    (he : e.eval setting s₁ = (.error (.crashed message), s₂)) (later : List Expr) :
    argumentsWaiting (front ++ e :: later) setting s =
      results.filterMap failureOf? ++ e.waiting setting s₁ := by
  have hattempts : attemptAll (e :: later) setting s₁ = (.error (.crashed message), s₂) :=
    bind_apply_error (attempt_of_crashed he)
  have hall : attemptAll (front ++ e :: later) setting s = (.error (.crashed message), s₂) := by
    rw [attemptAll_append, bind_apply_ok hfront]
    exact bind_apply_error hattempts
  rw [argumentsWaiting, Waiting.andThen_of_error hall, attemptsWaiting_append hfront,
    attemptsWaiting, Waiting.andThen_of_error (attempt_of_crashed he)]

theorem itemsWaiting_append {front : List Expr} {values : List (Option Value)}
    (h : evalItems front setting s = (.ok values, s₁)) (rest : List Expr) :
    itemsWaiting (front ++ rest) setting s = itemsWaiting rest setting s₁ := by
  induction front generalizing s values with
  | nil =>
      cases h
      rfl
  | cons e front ih =>
      rw [evalItems] at h
      obtain ⟨value, t, hvalue, h⟩ := bind_eq_ok_iff.mp h
      obtain ⟨others, t', hothers, h⟩ := bind_eq_ok_iff.mp h
      cases h
      rw [List.cons_append, itemsWaiting, Waiting.andThen_of_ok hvalue, ih hothers]

/-- In the middle of an array only that waits which waits within the item that crashes. -/
theorem waiting_array_of_crashed {front : List Expr} {e : Expr} {values : List (Option Value)}
    (hfront : evalItems front setting s = (.ok values, s₁))
    (he : e.eval setting s₁ = (.error (.crashed message), s₂)) (later : List Expr) :
    (array (front ++ e :: later)).waiting setting s = e.waiting setting s₁ := by
  rw [waiting, itemsWaiting_append hfront, itemsWaiting,
    Waiting.andThen_of_error (settle_of_crashed he)]

theorem linksWaiting_append {front : List (Operator × Expr)} {left value : Option Value}
    (h : evalLinks left front setting s = (.ok value, s₁)) (rest : List (Operator × Expr)) :
    linksWaiting (front ++ rest) setting s = linksWaiting rest setting s₁ := by
  induction front generalizing s left with
  | nil =>
      cases h
      rfl
  | cons link front ih =>
      obtain ⟨op, e⟩ := link
      rw [evalLinks] at h
      obtain ⟨operand, t, hoperand, h⟩ := bind_eq_ok_iff.mp h
      obtain ⟨right, t', hright, h⟩ := bind_eq_ok_iff.mp h
      rw [List.cons_append, linksWaiting, Waiting.andThen_of_ok hoperand,
        Waiting.andThen_of_ok hright]
      exact ih h

/-- In the middle of a chain only that waits which waits within the operand that crashes. -/
theorem waiting_chain_of_crashed {first e : Expr} {front : List (Operator × Expr)} {op : Operator}
    {left value : Option Value} {t : State} (hfirst : settle first.eval setting s = (.ok left, t))
    (hfront : evalLinks left front setting t = (.ok value, s₁))
    (he : e.eval setting s₁ = (.error (.crashed message), s₂)) (later : List (Operator × Expr)) :
    (chain first (front ++ (op, e) :: later)).waiting setting s = e.waiting setting s₁ := by
  have hlinks : ¬ (front ++ (op, e) :: later).isEmpty = true := by simp
  simp only [waiting, hlinks]
  rw [if_neg Bool.false_ne_true, Waiting.andThen_of_ok hfirst, linksWaiting_append hfront,
    linksWaiting, Waiting.andThen_of_error (settle_of_crashed he)]

end Expr

end Waiting

/-- If the source crashes during a statement then the failures raised by then are recorded once
each, in front of the crash, but for those that are waiting: these are lost. Arguments before the
one that is broken off leave their failures waiting; items and operands before it leave nothing. -/
theorem Statement.crash_loses_waiting (statement : Statement) (setting : Setting) (s s' : State)
    (message : Option String)
    (hcrash : statement.exec setting s = (.error (.crashed message), s')) :
    (∃ kept,
      (statement.after setting s).failures =
          s.failures ++ kept ++ [.crash (message.getD namelessCrash)] ∧
        (statement.after setting s).diagnostics =
          s.diagnostics ++ kept.map Failure.diagnostic ++
            [⟨.interpreterError, "Interpreter error: " ++ message.getD namelessCrash⟩] ∧
        (kept ++ statement.waiting setting s).Perm
          (raised setting s (statement.trace setting s))) ∧
    (∀ f ∈ raised setting s (statement.trace setting s), f ∉ statement.waiting setting s →
      f ∈ (statement.after setting s).failures) ∧
    (∀ front e later results t t' other, Expr.attemptAll front setting s = (.ok results, t) →
      e.eval setting t = (.error (.crashed other), t') →
        (∀ function, (Expr.call function (front ++ e :: later)).waiting setting s =
          results.filterMap failureOf? ++ e.waiting setting t) ∧
        (Statement.plot (front ++ e :: later)).waiting setting s =
          results.filterMap failureOf? ++ e.waiting setting t ∧
        (Statement.highlight (front ++ e :: later)).waiting setting s =
          results.filterMap failureOf? ++ e.waiting setting t) ∧
    (∀ front e later values t t' other, Expr.evalItems front setting s = (.ok values, t) →
      e.eval setting t = (.error (.crashed other), t') →
        (Expr.array (front ++ e :: later)).waiting setting s = e.waiting setting t) ∧
    ∀ first front op e later left value t₀ t t' other,
      settle first.eval setting s = (.ok left, t₀) →
        Expr.evalLinks left front setting t₀ = (.ok value, t) →
          e.eval setting t = (.error (.crashed other), t') →
            (Expr.chain first (front ++ (op, e) :: later)).waiting setting s =
              e.waiting setting t := by
  obtain ⟨kept, left, hkept, hleft, hperm⟩ := statement.accounts_exec s
  rw [hcrash] at hkept hleft
  cases hleft
  rw [List.nil_append] at hperm
  have hafter : (statement.after setting s).failures =
      s.failures ++ kept ++ [.crash (message.getD namelessCrash)] := by
    rw [after_eq, hcrash, State.failures_recording, hkept]
    rfl
  refine ⟨⟨kept, hafter, ?_, hperm⟩, fun f hf hwaiting => ?_, ?_, ?_, ?_⟩
  · rw [State.diagnostics, hafter, List.map_append, List.map_append]
    rfl
  · have hmem := (List.mem_append.mp (hperm.mem_iff.mpr hf)).resolve_right hwaiting
    rw [hafter]
    exact List.mem_append_left _ (List.mem_append_right _ hmem)
  · intro front e later results t t' other hfront he
    have hwaiting := Expr.argumentsWaiting_of_crashed hfront he later
    exact ⟨fun _ => hwaiting, hwaiting, hwaiting⟩
  · intro front e later values t t' other hfront he
    exact Expr.waiting_array_of_crashed hfront he later
  · intro first front op e later left value t₀ t t' other hfirst hfront he
    exact Expr.waiting_chain_of_crashed hfirst hfront he later

/-- A plot of a name without a value, and of an array of another one and of a metric that makes the
source break down. -/
def Statement.plottingTwo : Statement :=
  .plot [.variable "v", .array [.variable "u", .reading .protocol "y" "tvl"]]

/-- The failure of the item is recorded, that of the argument is lost. -/
theorem Statement.crash_loses_waiting_plottingTwo :
    ∃ s', plottingTwo.exec .breakingAtY {} = (.error (.crashed (some "out of reach")), s') ∧
      plottingTwo.waiting .breakingAtY {} = [.undefinedVariable "v"] ∧
      (plottingTwo.after .breakingAtY {}).failures =
        [.undefinedVariable "u", .crash "out of reach"] ∧
      ∃ kept, (plottingTwo.after .breakingAtY {}).failures = kept ++ [.crash "out of reach"] ∧
        (kept ++ [.undefinedVariable "v"]).Perm
          (raised .breakingAtY {} (plottingTwo.trace .breakingAtY {})) := by
  obtain ⟨s', hcrash⟩ : ∃ s', plottingTwo.exec .breakingAtY {} =
      (.error (.crashed (some "out of reach")), s') := ⟨_, by with_unfolding_all rfl⟩
  have hwaiting : plottingTwo.waiting .breakingAtY {} = [.undefinedVariable "v"] := by
    with_unfolding_all rfl
  obtain ⟨⟨kept, hfailures, -, hperm⟩, -⟩ :=
    crash_loses_waiting plottingTwo .breakingAtY {} s' _ hcrash
  rw [hwaiting] at hperm
  exact ⟨s', hcrash, hwaiting, by with_unfolding_all rfl, kept, hfailures, hperm⟩

/-- Not every failure that was raised before a crash is recorded. -/
theorem Statement.not_recorded_of_raised :
    ¬ ∀ (statement : Statement) (setting : Setting) (s : State), statement.Crashes setting s →
      ∀ f ∈ raised setting s (statement.trace setting s),
        f ∈ (statement.after setting s).failures := by
  intro h
  have hcrashes : plottingTwo.Crashes .breakingAtY {} :=
    ⟨some "out of reach", _, by with_unfolding_all rfl⟩
  have hraised : raised .breakingAtY {} (plottingTwo.trace .breakingAtY {}) =
      [.undefinedVariable "v", .undefinedVariable "u"] := by with_unfolding_all rfl
  have hfailures : (plottingTwo.after .breakingAtY {}).failures =
      [.undefinedVariable "u", .crash "out of reach"] := by with_unfolding_all rfl
  have hrecorded := h plottingTwo .breakingAtY {} hcrashes (.undefinedVariable "v")
    (hraised ▸ List.mem_cons_self)
  rw [hfailures] at hrecorded
  simp at hrecorded

end MetricScript
