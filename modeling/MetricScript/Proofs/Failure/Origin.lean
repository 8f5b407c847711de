import MetricScript.Proofs.Cache.Provenance
import MetricScript.Proofs.Failure.Rounds

/-! # Where the failure of an expression comes from

Arrays, negations and chains with a link have a value whatever becomes of their parts: a failure
there is recorded and leaves a gap. The failure of any other expression is that of a single place,
and it comes up from there as it is, through bases of members and chains without a link. -/

namespace MetricScript

open Run

section Parts

variable {setting : Setting} {s s' : State} {f : Failure}

/-! ## Names and properties -/

/-- Properties taken one after the other fail with the first one that fails. -/
theorem Run.properties_eq_failed_iff {base : Value} {names : List String} :
    properties base names setting s = (.error (.failed f), s') ↔
      ∃ front name rest v t, names = front ++ name :: rest ∧
        properties base front setting s = (.ok v, t) ∧
        property v name setting t = (.error (.failed f), s') := by
  constructor
  · intro h
    induction names generalizing base s with
    | nil => cases h
    | cons name rest ih =>
        rw [properties] at h
        rcases bind_eq_error_iff.mp h with h | ⟨v, t, hv, h⟩
        · exact ⟨[], name, rest, base, s, rfl, rfl, h⟩
        · obtain ⟨front, failing, others, w, u, rfl, hfront, hfailing⟩ := ih h
          exact ⟨name :: front, failing, others, w, u, rfl, (bind_apply_ok hv).trans hfront,
            hfailing⟩
  · rintro ⟨front, name, rest, v, t, rfl, hfront, hfailing⟩
    induction front generalizing base s with
    | nil =>
        cases hfront
        exact bind_apply_error hfailing
    | cons first front ih =>
        rw [properties] at hfront
        obtain ⟨w, u, hw, hfront⟩ := bind_eq_ok_iff.mp hfront
        exact (bind_apply_ok hw).trans (ih hfront)

theorem Run.nameValue_eq_failed_iff {name : String} :
    nameValue name setting s = (.error (.failed f), s') ↔
      name ≠ "null" ∧ s.bindings.find? name = none ∧ f = .undefinedVariable name ∧ s' = s := by
  rw [nameValue_apply]
  by_cases hname : name = "null"
  · simp [hname]
  · cases s.bindings.find? name <;> simp [hname, eq_comm]

end Parts

namespace Expr

section Values

variable {setting : Setting} {s s' : State} {v : Value}

/-! ## Expressions that never fail -/

theorem neverFails_evalItems (items : List Expr) : NeverFails (evalItems items) := by
  induction items with
  | nil => exact .pure []
  | cons e rest ih =>
      exact (NeverFails.settle e.eval).bind fun value => ih.bind fun _ => .pure _

theorem neverFails_array (items : List Expr) : NeverFails (array items).eval :=
  (neverFails_evalItems items).bind fun _ => .pure _

theorem neverFails_evalArguments (arguments : List Expr) :
    NeverFails (evalArguments arguments) :=
  (neverFails_attemptAll arguments).bind fun results => .settleResults results

theorem neverFails_not (operand : Expr) : NeverFails (not operand).eval :=
  (NeverFails.settle operand.eval).bind fun _ => NeverFails.now.bind fun _ => .pure _

/-- The branch for a chain whose links leave no value is never taken: anything may stand there. -/
theorem eval_chain_elim (first : Expr) {rest : List (Operator × Expr)} (h : rest ≠ [])
    (last : Run Value) :
    (chain first rest).eval =
      settle first.eval >>= fun left =>
        evalLinks left rest >>= fun value => value.elim last pure := by
  rw [eval_chain_of_ne_nil first h]
  funext setting s
  refine bind_apply_congr fun left t _ => bind_apply_congr fun value t' hlinks => ?_
  obtain ⟨series, rfl⟩ := exists_series_of_evalLinks h hlinks
  rfl

theorem neverFails_chain (first : Expr) {rest : List (Operator × Expr)} (h : rest ≠ []) :
    NeverFails (chain first rest).eval := by
  -- With a value in the branch that is never taken, there is nothing left that could fail.
  rw [eval_chain_elim first h (pure .null)]
  refine (NeverFails.settle first.eval).bind fun left =>
    (neverFails_evalLinks left rest).bind fun value => ?_
  cases value with
  | none => exact .pure _
  | some v => exact .pure v

/-! ## Their values -/

theorem length_evalItems {items : List Expr} {values : List (Option Value)}
    (h : evalItems items setting s = (.ok values, s')) : values.length = items.length := by
  induction items generalizing s values with
  | nil =>
      cases h
      rfl
  | cons e rest ih =>
      rw [evalItems] at h
      obtain ⟨first, s₁, -, h⟩ := bind_eq_ok_iff.mp h
      obtain ⟨others, s₂, hothers, h⟩ := bind_eq_ok_iff.mp h
      cases h
      rw [List.length_cons, List.length_cons, ih hothers]

theorem slots_of_eval_array {items : List Expr}
    (h : (array items).eval setting s = (.ok v, s')) :
    ∃ slots, v = .list slots ∧ slots.length = items.length := by
  obtain ⟨slots, t, hslots, h⟩ := bind_eq_ok_iff.mp h
  cases h
  exact ⟨slots, rfl, length_evalItems hslots⟩

theorem series_of_eval_not {operand : Expr} (h : (not operand).eval setting s = (.ok v, s')) :
    ∃ t, v = .series t := by
  obtain ⟨value, s₁, -, h⟩ := bind_eq_ok_iff.mp h
  obtain ⟨moment, s₂, -, h⟩ := bind_eq_ok_iff.mp h
  cases h
  exact ⟨_, rfl⟩

theorem series_of_eval_chain {first : Expr} {rest : List (Operator × Expr)} (hrest : rest ≠ [])
    (h : (chain first rest).eval setting s = (.ok v, s')) : ∃ t, v = .series t := by
  rw [eval_chain_of_ne_nil first hrest] at h
  obtain ⟨left, s₁, -, h⟩ := bind_eq_ok_iff.mp h
  obtain ⟨value, s₂, hvalue, h⟩ := bind_eq_ok_iff.mp h
  obtain ⟨t, rfl⟩ := exists_series_of_evalLinks hrest hvalue
  cases h
  exact ⟨t, rfl⟩

/-- The expression has a value of a kind, wherever its evaluation starts. -/
def Yields (setting : Setting) (kind : Value → Prop) (e : Expr) : Prop :=
  ∀ s, ∃ v s', e.eval setting s = (.ok v, s') ∧ kind v

theorem yields_of_neverFails (hcalm : setting.source.NeverCrashes) {e : Expr}
    (hnever : NeverFails e.eval) {kind : Value → Prop}
    (h : ∀ {s v s'}, e.eval setting s = (.ok v, s') → kind v) : e.Yields setting kind := by
  intro s
  obtain ⟨v, s', heval⟩ := ok_of_calm e.orderly_eval hnever hcalm s
  exact ⟨v, s', heval, h heval⟩

end Values

/-! ## Places of failure -/

/-- The second expression is reached from the first by going on to the base of a member, or to the
operand of a chain without a link. -/
inductive RestsOn : Expr → Expr → Prop where
  | itself (e : Expr) : RestsOn e e
  | base {base origin : Expr} (names : List String) (h : RestsOn base origin) :
    RestsOn (.member base names) origin
  | alone {first origin : Expr} (h : RestsOn first origin) : RestsOn (.chain first []) origin

/-- The expression fails by what it does itself, all its parts having been evaluated before; it
leads from the one state to the other. -/
inductive FailsItself (setting : Setting) : Expr → State → Failure → State → Prop where
  /-- A name stands for nothing. -/
  | name {name : String} {s : State} (hname : name ≠ "null")
    (hunbound : s.bindings.find? name = none) :
    FailsItself setting (.variable name) s (.undefinedVariable name) s
  /-- A call refuses its arguments, or there is no such function. -/
  | call {function : String} {arguments : List Expr} {values : List (Option Value)} {f : Failure}
    {s s' : State} (hvalues : evalArguments arguments setting s = (.ok values, s'))
    (hcall : callResult setting function values = .error f) :
    FailsItself setting (.call function arguments) s f s'
  /-- The base of a member has a value, and so have its properties up to one that fails. -/
  | access {base : Expr} (front rest : List String) {name : String} {v w : Value} {f : Failure}
    {s t u s' : State} (hbase : base.eval setting s = (.ok v, t))
    (hfront : properties v front setting t = (.ok w, u))
    (haccess : property w name setting u = (.error (.failed f), s')) :
    FailsItself setting (.member base (front ++ name :: rest)) s f s'
  | unsupported {s : State} : FailsItself setting .unsupported s .unsupportedExpression s

section Failures

variable {setting : Setting} {s s' : State} {f : Failure}

theorem FailsItself.eval {e : Expr} (h : e.FailsItself setting s f s') :
    e.eval setting s = (.error (.failed f), s') := by
  cases h with
  | name hname hunbound => exact nameValue_eq_failed_iff.mpr ⟨hname, hunbound, rfl, rfl⟩
  | call hvalues hcall =>
      rw [eval_call, bind_apply_ok hvalues, callFunction_apply, hcall]
      rfl
  | access front rest hbase hfront haccess =>
      rw [Expr.eval, bind_apply_ok hbase]
      exact properties_eq_failed_iff.mpr ⟨_, _, _, _, _, rfl, hfront, haccess⟩
  | unsupported => rfl

/-- A failure is handed up as it is, and nothing happens on the way. -/
theorem RestsOn.eval {e origin : Expr} (h : e.RestsOn origin)
    (hfails : origin.eval setting s = (.error (.failed f), s')) :
    e.eval setting s = (.error (.failed f), s') := by
  induction h with
  | itself e => exact hfails
  | base names h ih => exact bind_apply_error (ih hfails)
  | @alone first origin h ih =>
      rw [eval_chain_nil]
      exact ih hfails

/-- An expression that fails rests on one that fails itself. -/
theorem exists_origin {e : Expr} (h : e.eval setting s = (.error (.failed f), s')) :
    ∃ origin, e.RestsOn origin ∧ origin.FailsItself setting s f s' := by
  -- Only a base and the operand of a chain without a link hand their own failure on; of the other
  -- parts no hypothesis is needed.
  induction e using Expr.induct generalizing s' with
  | literal l => cases h
  | name name =>
      obtain ⟨hname, hunbound, rfl, rfl⟩ := nameValue_eq_failed_iff.mp h
      exact ⟨_, .itself _, .name hname hunbound⟩
  | array items ih => exact absurd h (neverFails_array items setting s f s')
  | call function arguments ih =>
      rw [eval_call] at h
      rcases bind_eq_error_iff.mp h with h | ⟨values, t, hvalues, h⟩
      · exact absurd h (neverFails_evalArguments arguments setting s f s')
      · rw [callFunction_apply] at h
        obtain ⟨hcall, rfl⟩ := Prod.ext_iff.mp h
        exact ⟨_, .itself _, .call hvalues (mapError_eq_failed_iff.mp hcall)⟩
  | member base names ih =>
      rw [Expr.eval] at h
      rcases bind_eq_error_iff.mp h with h | ⟨v, t, hbase, h⟩
      · obtain ⟨origin, hrests, hfails⟩ := ih h
        exact ⟨origin, .base names hrests, hfails⟩
      · obtain ⟨front, name, rest, w, u, rfl, hfront, haccess⟩ := properties_eq_failed_iff.mp h
        exact ⟨_, .itself _, .access front rest hbase hfront haccess⟩
  | chain first rest hfirst hrest =>
      by_cases hnil : rest = []
      · subst hnil
        rw [eval_chain_nil] at h
        obtain ⟨origin, hrests, hfails⟩ := hfirst h
        exact ⟨origin, .alone hrests, hfails⟩
      · exact absurd h (neverFails_chain first hnil setting s f s')
  | not operand ih => exact absurd h (neverFails_not operand setting s f s')
  | unsupported =>
      cases h
      exact ⟨_, .itself _, .unsupported⟩

end Failures

/-- With a source that never crashes literals, arrays, negations and chains with a link have a value
wherever the evaluation starts and whatever becomes of their parts: an array has a slot for each
item, the others are series, and a chain with a link never takes its last branch. Any other failure
is that of an expression that fails itself, reached by going on to bases of members and to operands
of chains without a link, and nothing happens to it on the way up. -/
theorem failure_has_origin (setting : Setting) (hcalm : setting.source.NeverCrashes) :
    (∀ l, (literal l).Yields setting fun v => v = l.value) ∧
    (∀ items, (array items).Yields setting fun v =>
      ∃ slots, v = .list slots ∧ slots.length = items.length) ∧
    (∀ operand, (not operand).Yields setting fun v => ∃ t, v = .series t) ∧
    (∀ first rest, rest ≠ [] →
      ((chain first rest).Yields setting fun v => ∃ t, v = .series t) ∧
      ∀ last : Run Value, (chain first rest).eval =
        settle first.eval >>= fun left =>
          evalLinks left rest >>= fun value => value.elim last pure) ∧
    ∀ (e : Expr) s f s', e.eval setting s = (.error (.failed f), s') ↔
      ∃ origin, e.RestsOn origin ∧ origin.FailsItself setting s f s' := by
  refine ⟨fun l s => ⟨l.value, s, rfl, rfl⟩, fun items => ?_, fun operand => ?_,
    fun first rest hrest => ⟨?_, eval_chain_elim first hrest⟩, fun e s f s' => ?_⟩
  · exact yields_of_neverFails hcalm (neverFails_array items) slots_of_eval_array
  · exact yields_of_neverFails hcalm (neverFails_not operand) series_of_eval_not
  · exact yields_of_neverFails hcalm (neverFails_chain first hrest) (series_of_eval_chain hrest)
  · constructor
    · exact exists_origin
    · rintro ⟨origin, hrests, hfails⟩
      exact hrests.eval hfails.eval

end Expr

/-- A setting in which the source always has an error to answer. -/
def Setting.busy : Setting where
  source := fun _ _ => .error (.unavailable "busy")

/-- A sum of which no operand has a value. -/
def Expr.sumOfNothing : Expr :=
  .chain (.reading .protocol "x" "tvl") [(.add, .variable "u")]

/-- A length for which a series has to be fetched first. -/
def Expr.lengthOfTvl : Expr :=
  .member (.chain (.reading .protocol "x" "tvl") []) ["length"]

theorem Expr.failure_has_origin_busy :
    Setting.busy.source.NeverCrashes ∧
    (∃ t s', sumOfNothing.eval .busy {} = (.ok (.series t), s')) ∧
    ∃ s', lengthOfTvl.eval .busy {} =
      (.error (.failed (.fetch ⟨.protocol, "x"⟩ "tvl" (.unavailable "busy"))), s') := by
  have hcalm : Setting.busy.source.NeverCrashes := fun _ _ _ h => by cases h
  obtain ⟨-, -, -, hchain, hfailed⟩ := failure_has_origin .busy hcalm
  refine ⟨hcalm, ?_, ?_⟩
  · obtain ⟨v, s', heval, t, rfl⟩ :=
      (hchain (.reading .protocol "x" "tvl") [(.add, .variable "u")] (by simp)).1 {}
    exact ⟨t, s', heval⟩
  · have hmapped : (Entity.mk .protocol "x").kind.endpoint? "tvl" = some .protocolTvl := by decide
    have haccess : property (.entity ⟨.protocol, "x"⟩) "tvl" .busy {} = _ :=
      entityProperty_of_missing hmapped rfl
    have hitself : (reading .protocol "x" "tvl").FailsItself .busy {}
        (.fetch ⟨.protocol, "x"⟩ "tvl" (.unavailable "busy")) _ :=
      .access [] [] eval_construct rfl haccess
    have hrests : lengthOfTvl.RestsOn (reading .protocol "x" "tvl") :=
      .base ["length"] (.alone (.itself _))
    exact ⟨_, (hfailed lengthOfTvl {} _ _).mpr ⟨_, hrests, hitself⟩⟩

end MetricScript
