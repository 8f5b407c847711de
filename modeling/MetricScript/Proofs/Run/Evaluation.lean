import MetricScript.Proofs.Run.Sound

/-! # Values of expressions are sound

In a sound state an expression has a sound value. What is missing from it stands for a failure that
has been recorded by then, or was recorded long before. -/

namespace MetricScript

open Run Trace

/-- Where something may be missing, it may be missing later as well. -/
theorem Traces.granted {α : Type} {t : Trace} {x : Run α} (h : Traces t x) {setting : Setting}
    {s s' : State} {r : Except Stop α} (hx : x setting s = (r, s')) :
    s.failures ≠ [] → s'.failures ≠ [] :=
  (h.failures_isPrefix hx).ne_nil

/-- In every sound state the expression has a sound value, if it has one. -/
def Expr.SoundIn (P : Series → Prop) (setting : Setting) (e : Expr) : Prop :=
  ∀ {s s' : State} {v : Value}, s.Sound P → e.eval setting s = (.ok v, s') →
    Value.Sound P (s'.failures ≠ []) (some v)

section Values

variable {P : Series → Prop} {setting : Setting} {s s' : State}

/-! ## Operands and properties -/

theorem Expr.SoundIn.settle {e : Expr} (h : e.SoundIn P setting) (hs : s.Sound P)
    {value : Option Value} (heval : settle e.eval setting s = (.ok value, s')) :
    Value.Sound P (s'.failures ≠ []) value := by
  rcases settle_cases heval with ⟨v, hv, rfl⟩ | ⟨f, t, -, rfl, rfl⟩
  · exact h hs hv
  · exact .missing (by simp)

theorem Run.seriesOperand_withoutHandle {value : Option Value} (h : SeriesOperand P value) :
    SeriesOperand P (withoutHandle value) := by
  intro t ht
  refine h t ?_
  rcases value with _ | (_ | _ | _ | _) <;> simp_all [withoutHandle]

theorem Run.nameValue_sound (hs : s.Sound P) {name : String} {v : Value}
    (h : nameValue name setting s = (.ok v, s')) :
    Value.Sound P (s'.failures ≠ []) (some v) := by
  rw [nameValue_apply] at h
  obtain ⟨hv, rfl⟩ := Prod.ext_iff.mp h
  simp only at hv
  split at hv
  · cases hv
    exact .scalar _
  · split at hv <;> cases hv
    rename_i hfound
    exact hs.bindings _ (NameMap.mem_of_find? hfound)

theorem Run.entityProperty_sound (hsource : setting.source.Gives P) (hs : s.Sound P)
    {entity : Entity} {name : String} {v : Value}
    (h : entityProperty entity name setting s = (.ok v, s')) :
    Value.Sound P (s'.failures ≠ []) (some v) := by
  cases he : entity.kind.endpoint? name with
  | none => simp [entityProperty_of_unmapped he] at h
  | some endpoint =>
      cases hk : s.kept? setting (cacheKey entity.id name) with
      | some series =>
          rw [entityProperty_of_kept he hk] at h
          cases h
          have hfound : s.cache.find? (cacheKey entity.id name) = some series := by
            unfold State.kept? at hk
            split at hk
            · exact hk
            · cases hk
          exact .series (hs.cache _ (NameMap.mem_of_find? hfound))
      | none =>
          rw [entityProperty_of_missing he hk] at h
          split at h <;> cases h
          rename_i series hanswer
          exact .series (hsource _ _ series hanswer)

theorem Run.property_sound (hsource : setting.source.Gives P) (hs : s.Sound P) {base : Value}
    (hbase : Value.Sound P (s.failures ≠ []) (some base)) {name : String} {v : Value}
    (h : property base name setting s = (.ok v, s')) :
    Value.Sound P (s'.failures ≠ []) (some v) := by
  have hplain (hbare : ∀ entity, base ≠ .entity entity) :
      Value.Sound P (s'.failures ≠ []) (some v) := by
    rw [property_of_plain hbare] at h
    obtain ⟨hv, rfl⟩ := Prod.ext_iff.mp h
    exact plainProperty_sound hbase (mapError_eq_ok_iff.mp hv)
  cases base with
  | entity entity => exact entityProperty_sound hsource hs h
  | scalar x => exact hplain (by simp)
  | series t => exact hplain (by simp)
  | list items => exact hplain (by simp)

theorem Run.properties_sound (hsource : setting.source.Gives P) {base : Value}
    {names : List String} (hs : s.Sound P) (hbase : Value.Sound P (s.failures ≠ []) (some base))
    {v : Value} (h : properties base names setting s = (.ok v, s')) :
    Value.Sound P (s'.failures ≠ []) (some v) := by
  induction names generalizing base s with
  | nil =>
      rw [properties, pure_apply] at h
      cases h
      exact hbase
  | cons name rest ih =>
      rw [properties] at h
      obtain ⟨value, s₁, hvalue, hrest⟩ := bind_eq_ok_iff.mp h
      have hs₁ := (Traces.property base name).sound hsource (.row (by simp [Step.isQuiet]))
        hvalue hs
      exact ih hs₁ (property_sound hsource hs hbase hvalue) hrest

/-! ## Lists of expressions -/

section Lists

variable (hsource : setting.source.Gives P)

include hsource

theorem Expr.evalItems_sound {items : List Expr} (h : ∀ e ∈ items, e.SoundIn P setting)
    (hs : s.Sound P) {values : List (Option Value)}
    (heval : Expr.evalItems items setting s = (.ok values, s')) :
    ∀ value ∈ values, Value.Sound P (s'.failures ≠ []) value := by
  induction items generalizing s values with
  | nil =>
      rw [Expr.evalItems, pure_apply] at heval
      cases heval
      exact fun _ hvalue => absurd hvalue List.not_mem_nil
  | cons e rest ih =>
      obtain ⟨he, hrest⟩ := List.forall_mem_cons.mp h
      rw [Expr.evalItems] at heval
      obtain ⟨first, s₁, hfirst, heval⟩ := bind_eq_ok_iff.mp heval
      obtain ⟨others, s₂, hothers, heval⟩ := bind_eq_ok_iff.mp heval
      rw [pure_apply] at heval
      cases heval
      have hs₁ := e.traces_eval.settling.sound hsource e.quiet_trace.settling hfirst hs
      have hlater := (Expr.traces_evalItems fun e _ => e.traces_eval).granted hothers
      exact List.forall_mem_cons.mpr
        ⟨(he.settle hs hfirst).mono hlater, ih hrest hs₁ hothers⟩

theorem Expr.attemptAll_sound {arguments : List Expr} (h : ∀ e ∈ arguments, e.SoundIn P setting)
    (hs : s.Sound P) {results : List (Except Failure Value)}
    (heval : Expr.attemptAll arguments setting s = (.ok results, s')) :
    ∀ v, .ok v ∈ results → Value.Sound P (s'.failures ≠ []) (some v) := by
  induction arguments generalizing s results with
  | nil =>
      rw [Expr.attemptAll, pure_apply] at heval
      cases heval
      exact fun _ hv => absurd hv List.not_mem_nil
  | cons e rest ih =>
      obtain ⟨he, hrest⟩ := List.forall_mem_cons.mp h
      rw [Expr.attemptAll] at heval
      obtain ⟨first, s₁, hfirst, heval⟩ := bind_eq_ok_iff.mp heval
      obtain ⟨others, s₂, hothers, heval⟩ := bind_eq_ok_iff.mp heval
      rw [pure_apply] at heval
      cases heval
      have hs₁ := e.traces_eval.attempt.sound hsource e.quiet_trace hfirst hs
      have hlater := (Expr.traces_attemptAll fun e _ => e.traces_eval).granted hothers
      intro v hv
      rcases List.mem_cons.mp hv with rfl | hv
      · rcases attempt_cases hfirst with ⟨a, ha, heq⟩ | ⟨f, -, heq⟩
        · cases heq
          exact (he hs ha).mono hlater
        · cases heq
      · exact ih hrest hs₁ hothers v hv

/-- An argument that is missing has failed, and its failure was recorded. -/
theorem Expr.evalArguments_sound {arguments : List Expr}
    (h : ∀ e ∈ arguments, e.SoundIn P setting) (hs : s.Sound P) {values : List (Option Value)}
    (heval : Expr.evalArguments arguments setting s = (.ok values, s')) :
    ∀ value ∈ values, Value.Sound P (s'.failures ≠ []) value := by
  obtain ⟨results, t, hresults, hsettle⟩ := bind_eq_ok_iff.mp heval
  rw [settleResults_apply] at hsettle
  cases hsettle
  intro value hvalue
  obtain ⟨result, hresult, rfl⟩ := List.mem_map.mp hvalue
  cases result with
  | ok v =>
      have hv := Expr.attemptAll_sound hsource h hs hresults v hresult
      exact hv.mono (List.prefix_append _ _).ne_nil
  | error f =>
      have hf : f ∈ results.filterMap failureOf? := List.mem_filterMap.mpr ⟨_, hresult, rfl⟩
      exact .missing (List.append_ne_nil_of_right_ne_nil _ (List.ne_nil_of_mem hf))

variable (hP : Series.Hereditary P)

include hP

theorem Expr.evalLinks_sound {rest : List (Operator × Expr)}
    (h : ∀ link ∈ rest, link.2.SoundIn P setting) (hs : s.Sound P) {left value : Option Value}
    (hleft : Value.Sound P (s.failures ≠ []) left)
    (heval : Expr.evalLinks left rest setting s = (.ok value, s')) :
    Value.Sound P (s'.failures ≠ []) value := by
  induction rest generalizing left s with
  | nil =>
      rw [Expr.evalLinks, pure_apply] at heval
      cases heval
      exact hleft
  | cons link rest ih =>
      obtain ⟨op, e⟩ := link
      obtain ⟨he, hrest⟩ := List.forall_mem_cons.mp h
      rw [Expr.evalLinks] at heval
      obtain ⟨operand, s₁, hoperand, heval⟩ := bind_eq_ok_iff.mp heval
      obtain ⟨right, s₂, hright, heval⟩ := bind_eq_ok_iff.mp heval
      obtain ⟨moment, s₃, hmoment, heval⟩ := bind_eq_ok_iff.mp heval
      cases hmoment
      have hs₁ := e.traces_eval.settling.sound hsource e.quiet_trace.settling hoperand hs
      have hs₂ := (Traces.refuseHandle _ operand).sound hsource (.row (by simp [Step.isQuiet]))
        hright hs₁
      have hr : SeriesOperand P right := by
        rw [refuseHandle_apply] at hright
        cases hright
        exact seriesOperand_withoutHandle (he.settle hs hoperand).seriesOperand
      exact ih hrest hs₂ (.series (Operator.apply_hereditary hP hleft.seriesOperand hr op _)) heval

end Lists

/-! ## Expressions -/

/-- In a sound state every expression has a sound value, if it has one. -/
theorem Expr.sound_eval (hsource : setting.source.Gives P) (hP : Series.Hereditary P) (e : Expr) :
    e.SoundIn P setting := by
  induction e using Expr.induct with
  | literal l =>
      intro s s' v hs h
      cases h
      cases l <;> exact .scalar _
  | name name => exact fun hs h => nameValue_sound hs h
  | array items ih =>
      intro s s' v hs h
      obtain ⟨values, s₁, hvalues, h⟩ := bind_eq_ok_iff.mp h
      cases h
      exact .list (Expr.evalItems_sound hsource ih hs hvalues)
  | call function arguments ih =>
      intro s s' v hs h
      obtain ⟨results, s₁, hresults, h⟩ := bind_eq_ok_iff.mp h
      obtain ⟨values, s₂, hvalues, h⟩ := bind_eq_ok_iff.mp h
      have hsound := Expr.evalArguments_sound hsource ih hs
        ((bind_apply_ok hresults).trans hvalues)
      rw [callFunction_apply] at h
      obtain ⟨hv, rfl⟩ := Prod.ext_iff.mp h
      exact callResult_sound hP hsound (mapError_eq_ok_iff.mp hv)
  | member base names ih =>
      intro s s' v hs h
      obtain ⟨value, s₁, hvalue, h⟩ := bind_eq_ok_iff.mp h
      have hs₁ := base.traces_eval.sound hsource base.quiet_trace hvalue hs
      exact properties_sound hsource hs₁ (ih hs hvalue) h
  | chain first rest hfirst hrest =>
      intro s s' v hs h
      rw [Expr.eval] at h
      split at h
      · exact hfirst hs h
      · obtain ⟨left, s₁, hleft, h⟩ := bind_eq_ok_iff.mp h
        obtain ⟨value, s₂, hvalue, h⟩ := bind_eq_ok_iff.mp h
        have hs₁ := first.traces_eval.settling.sound hsource first.quiet_trace.settling hleft hs
        have hsound := Expr.evalLinks_sound hsource hP hrest hs₁ (hfirst.settle hs hleft) hvalue
        cases value with
        | none => cases h
        | some w =>
            cases h
            exact hsound
  | not operand ih =>
      intro s s' v hs h
      obtain ⟨value, s₁, hvalue, h⟩ := bind_eq_ok_iff.mp h
      obtain ⟨moment, s₂, hmoment, h⟩ := bind_eq_ok_iff.mp h
      cases hmoment
      cases h
      exact .series (Value.negate_hereditary hP (ih.settle hs hvalue).seriesOperand _)
  | unsupported =>
      intro s s' v hs h
      cases h

end Values

end MetricScript
