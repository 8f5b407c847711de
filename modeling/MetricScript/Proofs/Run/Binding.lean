import MetricScript.Proofs.Cache.Provenance
import MetricScript.Proofs.Run.Boundary

/-! # What a name stands for

A name stands for what the last assignment to it gave. Without an expression, or if its expression
fails, an assignment takes the value away. A crash of the source takes nothing away: the assignment
is broken off before it comes to its name, which may go on standing for what an older one gave. -/

namespace MetricScript

open Run

namespace Statement

/-- The statement assigns the name an expression that has the value. -/
def Gives (setting : Setting) (s : State) (name : String) (v : Value) (statement : Statement) :
    Prop :=
  ∃ e, statement = .assignment name (some e) ∧ (e.eval setting s).1 = .ok v

/-- The source crashes while the statement is executed. -/
def Crashes (setting : Setting) (s : State) (statement : Statement) : Prop :=
  ∃ message s', statement.exec setting s = (.error (.crashed message), s')

end Statement

/-- Every assignment to the name along the statements is broken off by a crash. -/
def OnlyCrashes (setting : Setting) (name : String) (s : State) : List Statement → Prop
  | [] => True
  | statement :: rest =>
    (statement.target? = some name → statement.Crashes setting s) ∧
      OnlyCrashes setting name (statement.after setting s) rest

section Bindings

variable {setting : Setting} {s s' : State} {name : String} {v : Value}

/-! ## One statement -/

theorem Statement.target?_of_gives {statement : Statement}
    (h : statement.Gives setting s name v) : statement.target? = some name := by
  obtain ⟨e, rfl, -⟩ := h
  rfl

/-- A statement leaves every name alone that it does not assign to. -/
theorem Statement.find?_after_of_ne {statement : Statement} (h : statement.target? ≠ some name) :
    (statement.after setting s).bindings.find? name = s.bindings.find? name := by
  have htouches := statement.touches_after setting s
  cases statement with
  | assignment other value => exact htouches.1 name fun heq => h (congrArg some heq.symm)
  | plot arguments => exact congrArg (NameMap.find? · name) htouches.1
  | highlight arguments => exact congrArg (NameMap.find? · name) htouches.1
  | expression e => rfl
  | unsupported rule => rfl

/-- An assignment is broken off by a crash of the source during its expression, and by nothing
else. -/
theorem Statement.crashes_assignment_iff {value : Option Expr} :
    (Statement.assignment name value).Crashes setting s ↔
      ∃ e message s', value = some e ∧ e.eval setting s = (.error (.crashed message), s') := by
  constructor
  · rintro ⟨message, s', hexec⟩
    cases value with
    | none => cases hexec
    | some e =>
        rcases h : e.eval setting s with ⟨(f | other) | v, t⟩
        · cases (bind_apply_ok (attempt_of_failed h)).symm.trans hexec
        · exact ⟨e, other, t, rfl, h⟩
        · cases (bind_apply_ok (attempt_of_ok h)).symm.trans hexec
  · rintro ⟨e, message, s', rfl, h⟩
    exact ⟨message, s', exec_assignment_of_crashed h name⟩

/-- What the name stands for after an assignment to it. -/
theorem Statement.find?_after_assignment_iff {value : Option Expr} :
    ((Statement.assignment name value).after setting s).bindings.find? name = some v ↔
      (Statement.assignment name value).Gives setting s name v ∨
        (Statement.assignment name value).Crashes setting s ∧ s.bindings.find? name = some v := by
  rw [crashes_assignment_iff]
  cases value with
  | none => simp [after_unbinding, Gives]
  | some e =>
      rcases h : e.eval setting s with ⟨(f | message) | w, t⟩
      · simp [after_assignment_of_failed h, Gives, h]
      · have hbindings := (e.frame_eval h).1
        have hafter : (Statement.assignment name (some e)).after setting s =
            t.recording [.crash (message.getD namelessCrash)] := by
          rw [after_eq, exec_assignment_of_crashed h]
          rfl
        simp [hafter, Gives, h, State.recording, hbindings]
      · simp [after_assignment_of_ok h, Gives, h]

/-- A name stands for a value after a statement if the statement has given it the value, or if it
stood for the value before and the statement is no assignment to the name, or a crashed one. -/
theorem Statement.find?_after_iff (statement : Statement) :
    (statement.after setting s).bindings.find? name = some v ↔
      statement.Gives setting s name v ∨
        (statement.target? = some name → statement.Crashes setting s) ∧
          s.bindings.find? name = some v := by
  by_cases htarget : statement.target? = some name
  · cases statement with
    | assignment other value =>
        obtain rfl : other = name := Option.some.inj htarget
        simp only [htarget, true_imp_iff]
        exact find?_after_assignment_iff
    | _ => cases htarget
  · have hgives : ¬ statement.Gives setting s name v := fun h => htarget (target?_of_gives h)
    simp [find?_after_of_ne htarget, htarget, hgives]

/-! ## Statements in order -/

/-- A name stands for a value after statements if one of them has given it the value and every later
assignment to it has crashed, or if it stood for the value before and all of them have crashed. -/
theorem find?_stateAfter_iff (statements : List Statement) :
    (stateAfter setting s statements).bindings.find? name = some v ↔
      (∃ front statement later, statements = front ++ statement :: later ∧
        statement.Gives setting (stateAfter setting s front) name v ∧
        OnlyCrashes setting name (stateAfter setting s (front ++ [statement])) later) ∨
      OnlyCrashes setting name s statements ∧ s.bindings.find? name = some v := by
  induction statements generalizing s with
  | nil => simp [OnlyCrashes]
  | cons first rest ih =>
      rw [stateAfter_cons, ih, Statement.find?_after_iff]
      constructor
      · rintro (⟨front, statement, later, rfl, hgives, hlater⟩ | ⟨hrest, hfirst | ⟨hfirst, hs⟩⟩)
        · exact Or.inl ⟨first :: front, statement, later, rfl, hgives, hlater⟩
        · exact Or.inl ⟨[], first, rest, rfl, hfirst, hrest⟩
        · exact Or.inr ⟨⟨hfirst, hrest⟩, hs⟩
      · rintro (⟨front, statement, later, hsplit, hgives, hlater⟩ | ⟨⟨hfirst, hrest⟩, hs⟩)
        · cases front with
          | nil =>
              obtain ⟨rfl, rfl⟩ := List.cons.inj hsplit
              exact Or.inr ⟨hlater, Or.inl hgives⟩
          | cons head front =>
              obtain ⟨rfl, rfl⟩ := List.cons.inj hsplit
              exact Or.inl ⟨front, statement, later, rfl, hgives, hlater⟩
        · exact Or.inr ⟨hrest, Or.inr ⟨hfirst, hs⟩⟩

theorem OnlyCrashes.of_no_target {statements : List Statement}
    (h : ∀ statement ∈ statements, statement.target? ≠ some name) :
    OnlyCrashes setting name s statements := by
  induction statements generalizing s with
  | nil => trivial
  | cons statement rest ih =>
      obtain ⟨hfirst, hrest⟩ := List.forall_mem_cons.mp h
      exact ⟨fun htarget => absurd htarget hfirst, ih hrest⟩

/-- If all assignments to a name crash and there is one, then the last one crashes. -/
theorem OnlyCrashes.last {statements : List Statement} (h : OnlyCrashes setting name s statements)
    (hsome : ∃ statement ∈ statements, statement.target? = some name) :
    ∃ front statement later, statements = front ++ statement :: later ∧
      statement.target? = some name ∧ (∀ other ∈ later, other.target? ≠ some name) ∧
      statement.Crashes setting (stateAfter setting s front) := by
  induction statements generalizing s with
  | nil => simp at hsome
  | cons first rest ih =>
      by_cases hrest : ∃ statement ∈ rest, statement.target? = some name
      · obtain ⟨front, statement, later, rfl, htarget, hlater, hcrash⟩ := ih h.2 hrest
        exact ⟨first :: front, statement, later, rfl, htarget, hlater, hcrash⟩
      · have hnone : ∀ other ∈ rest, other.target? ≠ some name :=
          fun other hother htarget => hrest ⟨other, hother, htarget⟩
        obtain ⟨statement, hmem, htarget⟩ := hsome
        rcases List.mem_cons.mp hmem with rfl | hmem
        · exact ⟨[], statement, rest, rfl, htarget, hnone, h.1 htarget⟩
        · exact absurd htarget (hnone statement hmem)

end Bindings

/-- Between two statements of a run from its beginning, a name is bound to a value if and only if
the last assignment to it that was not broken off by a crash has given it the value. If the last
assignment of all was not broken off, that is the one that decides. A name that is not bound cannot
be read. -/
theorem Script.bound_iff_last_given (done rest : List Statement) (setting : Setting)
    (name : String) :
    (Script.mk (done ++ rest)).exec setting {} = execAll rest setting (stateAfter setting {} done) ∧
    (∀ v, (stateAfter setting {} done).bindings.find? name = some v ↔
      ∃ front statement later, done = front ++ statement :: later ∧
        statement.Gives setting (stateAfter setting {} front) name v ∧
        OnlyCrashes setting name (stateAfter setting {} (front ++ [statement])) later) ∧
    ((∀ front statement later, done = front ++ statement :: later →
        statement.target? = some name → (∀ other ∈ later, other.target? ≠ some name) →
        ¬ statement.Crashes setting (stateAfter setting {} front)) →
      ∀ v, (stateAfter setting {} done).bindings.find? name = some v ↔
        ∃ front statement later, done = front ++ statement :: later ∧
          statement.Gives setting (stateAfter setting {} front) name v ∧
          ∀ other ∈ later, other.target? ≠ some name) ∧
    ((stateAfter setting {} done).bindings.find? name = none → name ≠ "null" →
      (Expr.variable name).eval setting (stateAfter setting {} done) =
        (.error (.failed (.undefinedVariable name)), stateAfter setting {} done)) := by
  have hbound (v : Value) : (stateAfter setting {} done).bindings.find? name = some v ↔
      ∃ front statement later, done = front ++ statement :: later ∧
        statement.Gives setting (stateAfter setting {} front) name v ∧
        OnlyCrashes setting name (stateAfter setting {} (front ++ [statement])) later := by
    have hempty : (({} : State).bindings.find? name) ≠ some v := by simp
    rw [find?_stateAfter_iff]
    exact or_iff_left fun h => hempty h.2
  refine ⟨execAll_append done rest setting {}, hbound, fun hlast v => ?_, fun hnone hnull => ?_⟩
  · rw [hbound]
    constructor
    · rintro ⟨front, statement, later, rfl, hgives, hlater⟩
      refine ⟨front, statement, later, rfl, hgives, fun other hother htarget => ?_⟩
      -- A later assignment would have crashed, and so would the last one.
      obtain ⟨mid, last, tail, rfl, hlasttarget, htail, hcrash⟩ :=
        hlater.last ⟨other, hother, htarget⟩
      refine hlast (front ++ statement :: mid) last tail (by simp) hlasttarget htail ?_
      rwa [← stateAfter_append, List.append_assoc, List.singleton_append] at hcrash
    · rintro ⟨front, statement, later, rfl, hgives, hlater⟩
      exact ⟨front, statement, later, rfl, hgives, .of_no_target hlater⟩
  · change nameValue name setting _ = _
    rw [nameValue_apply, if_neg hnull, hnone]

/-! ## A stale name -/

theorem Statement.Crashes.not_gives {setting : Setting} {s : State} {name : String} {v : Value}
    {statement : Statement} (h : statement.Crashes setting s) :
    ¬ statement.Gives setting s name v := by
  rintro ⟨e, rfl, hvalue⟩
  obtain ⟨e', message, s', heq, hcrash⟩ := crashes_assignment_iff.mp h
  cases heq
  rw [hcrash] at hvalue
  cases hvalue

/-- A setting in which every call to the source makes it crash. -/
def Setting.brokenDown : Setting where
  source := fun _ _ => .crash none

/-- An assignment of a number. -/
def Statement.assigningOne : Statement :=
  .assignment "a" (some (.literal (.number 1)))

/-- An assignment of a metric to the same name. -/
def Statement.assigningTvl : Statement :=
  .assignment "a" (some (.reading .protocol "x" "tvl"))

theorem Statement.crashes_assigningTvl {s : State} (h : s.cache = .empty) :
    assigningTvl.Crashes .brokenDown s := by
  have hmapped : (Entity.mk .protocol "x").kind.endpoint? "tvl" = some .protocolTvl := by decide
  have hmissing : s.kept? .brokenDown (cacheKey "x" "tvl") = none := by
    simp [State.kept?, h]
  have hcrash : property (.entity ⟨.protocol, "x"⟩) "tvl" .brokenDown s =
      (.error (.crashed none), s.asked (s.fetch .brokenDown ⟨.protocol, "x"⟩ "tvl" .protocolTvl)) :=
    entityProperty_of_missing hmapped hmissing
  exact ⟨none, _, exec_assignment_of_crashed (Expr.eval_reading.trans hcrash) "a"⟩

/-- In a list of two, what has the last one not behind it is the last one. -/
theorem eq_last_of_not_mem {α : Type} {first last x : α} {front rest : List α}
    (h : [first, last] = front ++ x :: rest) (hlast : last ∉ rest) :
    front = [first] ∧ x = last := by
  match front with
  | [] =>
      cases h
      exact absurd List.mem_cons_self hlast
  | [_] =>
      cases h
      exact ⟨rfl, rfl⟩
  | _ :: _ :: front => simp at h

/-- A name that is given a value stands for it, even if the assignment before was broken off. -/
theorem Script.bound_iff_last_given_afterCrash :
    let done := [Statement.assigningTvl, .assigningOne]
    (∀ front statement later, done = front ++ statement :: later →
      statement.target? = some "a" → (∀ other ∈ later, other.target? ≠ some "a") →
        ¬ statement.Crashes .brokenDown (stateAfter .brokenDown {} front)) ∧
    Statement.assigningTvl.Crashes .brokenDown {} ∧
    (stateAfter .brokenDown {} done).bindings.find? "a" = some (.number 1) := by
  intro done
  have hlast (front : List Statement) (statement : Statement) (later : List Statement)
      (hsplit : done = front ++ statement :: later) (_ : statement.target? = some "a")
      (hlater : ∀ other ∈ later, other.target? ≠ some "a") :
      ¬ statement.Crashes .brokenDown (stateAfter .brokenDown {} front) := by
    obtain ⟨-, rfl⟩ := eq_last_of_not_mem hsplit fun hmem => hlater _ hmem rfl
    rintro ⟨message, s', hcrash⟩
    cases hcrash
  have hgiven : Statement.assigningOne.Gives .brokenDown
      (stateAfter .brokenDown {} [.assigningTvl]) "a" (.number 1) := ⟨_, rfl, rfl⟩
  refine ⟨hlast, Statement.crashes_assigningTvl rfl, ?_⟩
  exact ((bound_iff_last_given done [] .brokenDown "a").2.2.1 hlast _).mpr
    ⟨[.assigningTvl], .assigningOne, [], rfl, hgiven, by simp⟩

/-- The last assignment alone does not decide what a name stands for: if the source crashes in it,
the name still stands for what it was given before. -/
theorem Script.not_bound_iff_last_assigned :
    ¬ ∀ (done : List Statement) (setting : Setting) (name : String) (v : Value),
      (stateAfter setting {} done).bindings.find? name = some v ↔
        ∃ front statement later, done = front ++ statement :: later ∧
          statement.Gives setting (stateAfter setting {} front) name v ∧
          ∀ other ∈ later, other.target? ≠ some name := by
  intro h
  have hgiven : Statement.assigningOne.Gives .brokenDown {} "a" (.number 1) := ⟨_, rfl, rfl⟩
  have hcrash : Statement.assigningTvl.Crashes .brokenDown
      (stateAfter .brokenDown {} [.assigningOne]) := Statement.crashes_assigningTvl rfl
  have hbound : (stateAfter .brokenDown {} [.assigningOne, .assigningTvl]).bindings.find? "a" =
      some (.number 1) :=
    (find?_stateAfter_iff _).mpr (Or.inl ⟨[], _, _, rfl, hgiven, fun _ => hcrash, trivial⟩)
  obtain ⟨front, statement, later, hsplit, hgives, hlater⟩ := (h _ _ _ _).mp hbound
  obtain ⟨rfl, rfl⟩ := eq_last_of_not_mem hsplit fun hmem => hlater _ hmem rfl
  exact hcrash.not_gives hgives

end MetricScript
