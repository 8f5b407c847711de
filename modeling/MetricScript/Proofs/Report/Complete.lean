import MetricScript.Proofs.Run.Invariant

/-! # A clean report is complete

Failures are never taken back, so a run whose report has no diagnostic has not recorded a failure at
any time. No value can be missing from it then, and no statement has come to nothing. -/

namespace MetricScript

open Run Trace

namespace Statement

/-- Whether the statement asks for a plot. -/
def isPlot : Statement → Bool
  | .plot _ => true
  | _ => false

/-- Whether the statement asks for a highlight. -/
def isHighlight : Statement → Bool
  | .highlight _ => true
  | _ => false

end Statement

/-! ## Clean states -/

/-- A state before a clean one is clean. -/
theorem Traces.clean {α : Type} {t : Trace} {x : Run α} (h : Traces t x) {setting : Setting}
    {s s' : State} {r : Except Stop α} (hx : x setting s = (r, s')) (hclean : s'.failures = []) :
    s.failures = [] := by
  have hgrows := h.failures_isPrefix hx
  rw [hclean] at hgrows
  exact List.prefix_nil.mp hgrows

/-- If nothing is recorded by then, a contained computation has ended well. -/
theorem Run.eq_ok_of_contain_clean {x : Run Unit} {setting : Setting} {s s' : State}
    (h : contain x setting s = (.ok (), s')) (hclean : s'.failures = []) :
    x setting s = (.ok (), s') := by
  rcases hx : x setting s with ⟨(f | message) | a, t⟩
  · simp only [contain, hx, record_apply] at h
    cases h
    simp at hclean
  · simp only [contain, hx, record_apply] at h
    cases h
    simp at hclean
  · simpa only [contain, hx] using h

theorem Value.Sound.isSome_of_clean {P : Series → Prop} {s : State} {value : Option Value}
    (h : Value.Sound P (s.failures ≠ []) value) (hclean : s.failures = []) : value.isSome := by
  cases value with
  | none => exact absurd hclean h.of_missing
  | some v => rfl

section Clean

variable {setting : Setting} {s s' : State}

theorem Expr.length_attemptAll {arguments : List Expr} {results : List (Except Failure Value)}
    (h : Expr.attemptAll arguments setting s = (.ok results, s')) :
    results.length = arguments.length := by
  induction arguments generalizing s results with
  | nil =>
      cases h
      rfl
  | cons e rest ih =>
      rw [Expr.attemptAll] at h
      obtain ⟨first, s₁, -, h⟩ := bind_eq_ok_iff.mp h
      obtain ⟨others, s₂, hothers, h⟩ := bind_eq_ok_iff.mp h
      cases h
      simp [ih hothers]

theorem Expr.length_evalArguments {arguments : List Expr} {values : List (Option Value)}
    (h : Expr.evalArguments arguments setting s = (.ok values, s')) :
    values.length = arguments.length := by
  obtain ⟨results, t, hresults, hsettle⟩ := bind_eq_ok_iff.mp h
  rw [settleResults_apply] at hsettle
  cases hsettle
  rw [List.length_map, Expr.length_attemptAll hresults]

/-! ## Statements -/

/-- What statements add to a run in which nothing fails. -/
structure Adds (statements : List Statement) (s s' : State) : Prop where
  plots : s'.plots.length = s.plots.length + statements.countP Statement.isPlot
  highlights : s'.highlights.length = s.highlights.length + statements.countP Statement.isHighlight
  others : ∀ name, (∀ value, .assignment name value ∉ statements) →
    s'.bindings.find? name = s.bindings.find? name
  bound : ∀ front name e rest, statements = front ++ .assignment name (some e) :: rest →
    (∀ value, .assignment name value ∉ rest) → (s'.bindings.find? name).isSome

namespace Adds

theorem nil (s : State) : Adds [] s s :=
  ⟨rfl, rfl, fun _ _ => rfl, by simp⟩

theorem single {statement : Statement}
    (hplots : s'.plots.length = s.plots.length + [statement].countP Statement.isPlot)
    (hhighlights : s'.highlights.length =
      s.highlights.length + [statement].countP Statement.isHighlight)
    (hothers : ∀ name, (∀ value, statement ≠ .assignment name value) →
      s'.bindings.find? name = s.bindings.find? name)
    (hbound : ∀ name e, statement = .assignment name (some e) →
      (s'.bindings.find? name).isSome) : Adds [statement] s s' where
  plots := hplots
  highlights := hhighlights
  others name hname := hothers name fun value heq =>
    hname value (List.mem_singleton.mpr heq.symm)
  bound front name e rest heq _ := by
    cases front with
    | nil => exact hbound name e (List.cons.inj heq).1
    | cons first front => simp at heq

theorem cons {statement : Statement} {rest : List Statement} {t : State}
    (hfirst : Adds [statement] s t) (hrest : Adds rest t s') : Adds (statement :: rest) s s' where
  plots := by
    rw [hrest.plots, hfirst.plots, Nat.add_assoc, ← List.countP_append, List.singleton_append]
  highlights := by
    rw [hrest.highlights, hfirst.highlights, Nat.add_assoc, ← List.countP_append,
      List.singleton_append]
  others name hname := by
    rw [hrest.others name fun value h => hname value (List.mem_cons_of_mem _ h),
      hfirst.others name fun value h =>
        hname value (List.mem_cons.mpr (Or.inl (List.mem_singleton.mp h)))]
  bound front name e others heq hothers := by
    cases front with
    | nil =>
        obtain ⟨rfl, rfl⟩ := List.cons.inj heq
        rw [hrest.others name hothers]
        exact hfirst.bound [] name e [] rfl fun _ => List.not_mem_nil
    | cons first front => exact hrest.bound front name e others (List.cons.inj heq).2 hothers

end Adds

section Statements

variable {P : Series → Prop} (hsource : setting.source.Gives P) (hP : Series.Hereditary P)

include hsource hP

/-- The values of the arguments of a plot that goes without failure are all there. -/
theorem Run.plotted_clean {arguments : List Expr} (hs : s.Sound P) {s₁ : State}
    {values rights : List (Option Value)}
    (hvalues : Expr.evalArguments arguments setting s = (.ok values, s₁))
    (hrights : refuseHandles arguments values setting s₁ = (.ok rights, s'))
    (hclean : s'.failures = []) (hnonempty : arguments.isEmpty = false) :
    ∃ series, Builtin.argument? rights 0 = some series := by
  have hsound := refuseHandles_sound
    (Expr.evalArguments_sound_of_hereditary hsource hP hs hvalues) hrights
  have hlength : rights.length = arguments.length := by
    rw [refuseHandles_apply] at hrights
    cases hrights
    rw [List.length_zipWith, Expr.length_evalArguments hvalues, Nat.min_self]
  cases rights with
  | nil =>
      have harguments := List.length_eq_zero_iff.mp hlength.symm
      simp [harguments] at hnonempty
  | cons right others =>
      obtain ⟨series, rfl⟩ := Option.isSome_iff_exists.mp
        ((hsound right List.mem_cons_self).isSome_of_clean hclean)
      exact ⟨series, rfl⟩

/-- A plot that goes without failure is drawn. -/
theorem Run.plotArguments_clean {arguments : List Expr} (hs : s.Sound P)
    (h : plotArguments arguments setting s = (.ok (), s')) (hclean : s'.failures = []) :
    s'.bindings = s.bindings ∧ s'.plots.length = s.plots.length + 1 ∧
      s'.highlights = s.highlights := by
  cases hempty : arguments.isEmpty with
  | true =>
      simp only [plotArguments, hempty, if_true] at h
      cases h
  | false =>
      simp only [plotArguments, hempty, Bool.false_eq_true, if_false] at h
      obtain ⟨values, s₁, hvalues, h⟩ := bind_eq_ok_iff.mp h
      obtain ⟨rights, s₂, hrights, h⟩ := bind_eq_ok_iff.mp h
      obtain ⟨series, hseries⟩ := plotted_clean hsource hP hs hvalues hrights
        ((Traces.plotValues rights).clean h hclean) hempty
      obtain ⟨hbindings₁, hplots₁, hhighlights₁⟩ := (Expr.traces_evalArguments arguments).frame
        (Expr.quiet_argumentsTrace arguments) hvalues
      obtain ⟨hbindings₂, hplots₂, hhighlights₂⟩ := (Traces.refuseHandles arguments values).frame
        (.checks arguments values) hrights
      cases he : series.isEmptyCollection with
      | true =>
          rw [plotValues_of_empty hseries he] at h
          cases h
      | false =>
          rw [plotValues_of_drawn hseries he] at h
          cases h
          refine ⟨hbindings₂.trans hbindings₁, ?_, hhighlights₂.trans hhighlights₁⟩
          simp only [List.length_append, List.length_singleton, hplots₂, hplots₁]

/-- What a statement adds that goes without failure. -/
theorem Statement.adds_of_clean {statement : Statement} (hs : s.Sound P)
    (h : statement.exec setting s = (.ok (), s')) (hclean : s'.failures = []) :
    Adds [statement] s s' := by
  cases statement with
  | assignment name value =>
      cases value with
      | none =>
          cases h
          refine .single rfl rfl (fun other hother => ?_) (by simp)
          refine NameMap.find?_erase_of_ne _ fun heq => hother none ?_
          rw [heq]
      | some e =>
          obtain ⟨result, s₁, hresult, h⟩ := bind_eq_ok_iff.mp h
          obtain ⟨hbindings, hplots, hhighlights⟩ :=
            e.traces_eval.attempt.frame e.quiet_trace hresult
          cases result with
          | error f => cases h
          | ok v =>
              cases h
              refine .single (congrArg List.length hplots) (congrArg List.length hhighlights)
                (fun other hother => ?_) fun other e' heq => ?_
              · have hne : other ≠ name := fun heq => hother (some e) (by rw [heq])
                rw [NameMap.find?_insert_of_ne _ hne, hbindings]
              · cases heq
                simp
  | plot arguments =>
      obtain ⟨hbindings, hplots, hhighlights⟩ := plotArguments_clean hsource hP hs h hclean
      exact .single hplots (congrArg List.length hhighlights) (fun name _ => by rw [hbindings])
        (by simp)
  | highlight arguments =>
      obtain ⟨values, s₁, hvalues, h⟩ := bind_eq_ok_iff.mp h
      obtain ⟨hbindings, hplots, hhighlights⟩ := (Expr.traces_evalArguments arguments).frame
        (Expr.quiet_argumentsTrace arguments) hvalues
      cases h
      refine .single (congrArg List.length hplots) ?_ (fun name _ => by rw [hbindings]) (by simp)
      simp only [List.length_append, hhighlights]
      rfl
  | expression e =>
      cases h
      exact .single rfl rfl (fun _ _ => rfl) (by simp)
  | unsupported rule => cases h

/-! ## Scripts -/

/-- What statements add that all go without failure. -/
theorem execAll_adds_of_clean {statements : List Statement} (hs : s.Sound P)
    (h : execAll statements setting s = (.ok (), s')) (hclean : s'.failures = []) :
    Adds statements s s' := by
  induction statements generalizing s with
  | nil =>
      cases h
      exact .nil _
  | cons statement rest ih =>
      obtain ⟨⟨⟩, s₁, hfirst, hrest⟩ := bind_eq_ok_iff.mp h
      have hclean₁ := (traces_execAll rest).clean hrest hclean
      have hs₁ := contain_sound hsource hP statement hs hfirst
      have hadds := Statement.adds_of_clean hsource hP hs
        (eq_ok_of_contain_clean hfirst hclean₁) hclean₁
      exact hadds.cons (ih hs₁ hrest)

end Statements

end Clean

/-- A report without diagnostics is complete: it has as many plots and highlights as the script asks
for, every variable whose last assignment has an expression has a value, and nothing is missing from
any value at any depth. -/
theorem Script.complete_of_no_diagnostics (script : Script) (setting : Setting)
    (hclean : (script.interpret setting).diagnostics = []) :
    (script.interpret setting).plots.length = script.statements.countP Statement.isPlot ∧
      (script.interpret setting).highlights.length =
        script.statements.countP Statement.isHighlight ∧
      (∀ front name e rest, script.statements = front ++ .assignment name (some e) :: rest →
        (∀ value, .assignment name value ∉ rest) →
          ((script.interpret setting).bindings.find? name).isSome) ∧
      ¬ (script.interpret setting).Holds none := by
  have hsource : setting.source.Gives fun _ => True := fun _ _ _ _ => trivial
  have hP := Series.hereditary_true
  obtain ⟨s', hend⟩ := execAll_ok script.statements setting {}
  have hreport : script.interpret setting = s'.report := by
    rw [Script.interpret, finalState, Script.exec, hend]
  rw [hreport] at hclean ⊢
  have hfailures : s'.failures = [] := List.map_eq_nil_iff.mp hclean
  have hadds := execAll_adds_of_clean hsource hP .initial hend hfailures
  have hsound := execAll_sound hsource hP .initial hend
  refine ⟨hadds.plots.trans (Nat.zero_add _), hadds.highlights.trans (Nat.zero_add _),
    hadds.bound, fun hholds => ?_⟩
  exact (hsound.of_holds hholds).of_missing hfailures

/-- A script that plots and highlights the value of a variable. -/
def Script.showingItems : Script where
  statements :=
    [.assignment "a" (some (.array [.literal (.string "x"), .literal .null])),
      .plot [.variable "a"], .highlight [.variable "a"]]

theorem Script.complete_of_no_diagnostics_showingItems :
    (Script.showingItems.interpret { source := .ofData [] }).diagnostics = [] ∧
      (Script.showingItems.interpret { source := .ofData [] }).plots.length = 1 ∧
      (Script.showingItems.interpret { source := .ofData [] }).highlights.length = 1 ∧
      ((Script.showingItems.interpret { source := .ofData [] }).bindings.find? "a").isSome ∧
      ¬ (Script.showingItems.interpret { source := .ofData [] }).Holds none := by
  have hclean : (Script.showingItems.interpret { source := .ofData [] }).diagnostics = [] := by
    decide +kernel
  obtain ⟨hplots, hhighlights, hbound, hmissing⟩ :=
    complete_of_no_diagnostics .showingItems { source := .ofData [] } hclean
  exact ⟨hclean, hplots, hhighlights, hbound [] "a" _ _ rfl (by simp), hmissing⟩

end MetricScript
