import MetricScript.Proofs.Trace.Frame

/-! # Evaluating once more

An expression that has a value without recording a failure has fetched all that it needs. As long
as its variables stay the same it has that value ever after: it neither asks the source again, which
may fail by then, nor records anything. -/

namespace MetricScript

open Run Trace

/-- The variables that an expression mentions; `null` is no variable. -/
inductive Expr.Mentions (name : String) : Expr → Prop where
  | variable (h : name ≠ "null") : Mentions name (.variable name)
  | item {items : List Expr} {e : Expr} (he : e ∈ items) (h : Mentions name e) :
      Mentions name (.array items)
  | argument {function : String} {arguments : List Expr} {e : Expr} (he : e ∈ arguments)
      (h : Mentions name e) : Mentions name (.call function arguments)
  | base {base : Expr} {names : List String} (h : Mentions name base) :
      Mentions name (.member base names)
  | first {first : Expr} {rest : List (Operator × Expr)} (h : Mentions name first) :
      Mentions name (.chain first rest)
  | operand {first : Expr} {rest : List (Operator × Expr)} {link : Operator × Expr}
      (hlink : link ∈ rest) (h : Mentions name link.2) : Mentions name (.chain first rest)
  | negated {operand : Expr} (h : Mentions name operand) : Mentions name (.not operand)

/-- Every series that is kept in one state is kept in the other. -/
def State.KeptIn (s t : State) : Prop :=
  ∀ key series, s.cache.find? key = some series → t.cache.find? key = some series

theorem State.KeptIn.trans {s t u : State} (hst : s.KeptIn t) (htu : t.KeptIn u) : s.KeptIn u :=
  fun key series h => htu key series (hst key series h)

/-- A computation that touches neither variables nor plots nor highlights. -/
def Run.IsQuiet {α : Type} (x : Run α) : Prop :=
  ∃ t : Trace, Traces t x ∧ t.Quiet

namespace Run.IsQuiet

variable {α β : Type} {x : Run α} {f : α → Run β}

theorem pure (a : α) : IsQuiet (pure a) :=
  ⟨_, Traces.pure a, .row (by simp)⟩

theorem bind (hx : IsQuiet x) (hf : ∀ a, IsQuiet (f a)) : IsQuiet (x >>= f) := by
  obtain ⟨t, ht, hquiet⟩ := hx
  exact ⟨_, ht.andThen fun a => (hf a).choose_spec.1,
    hquiet.andThen fun a => (hf a).choose_spec.2⟩

theorem settle (hx : IsQuiet x) : IsQuiet (settle x) := by
  obtain ⟨t, ht, hquiet⟩ := hx
  exact ⟨_, ht.settling, hquiet.settling⟩

/-- A quiet computation that has recorded nothing in the end has recorded nothing on the way. -/
theorem nil_of_recording (hx : IsQuiet x) {setting : Setting} {s t : State} {r : Except Stop α}
    {failures : List Failure} (h : x setting s = (r, t))
    (hclean : (t.recording failures).failures = s.failures) : failures = [] := by
  obtain ⟨tx, htx, -⟩ := hx
  have hgrows := (htx.failures_isPrefix h).length_le
  have hlength := congrArg List.length hclean
  rw [State.failures_recording, List.length_append] at hlength
  exact List.eq_nil_of_length_eq_zero (by omega)

/-- If a quiet computation goes on quietly and nothing is recorded until the end, then nothing was
recorded in between; variables and series are the same there, but for new series. -/
theorem between (hx : IsQuiet x) (hf : ∀ a, IsQuiet (f a)) {setting : Setting} {s s' t : State}
    {a : α} {r : Except Stop β} (hfirst : x setting s = (.ok a, t))
    (hrest : f a setting t = (r, s')) (hclean : s'.failures = s.failures) :
    t.failures = s.failures ∧ s'.failures = t.failures ∧ t.bindings = s.bindings ∧
      t.KeptIn s' := by
  obtain ⟨tx, htx, hquiet⟩ := hx
  obtain ⟨tf, htf, -⟩ := hf a
  have hgrows := htx.failures_isPrefix hfirst
  have hgrows' := htf.failures_isPrefix hrest
  rw [hclean] at hgrows'
  have hsame : t.failures = s.failures :=
    (hgrows.eq_of_length_le hgrows'.length_le).symm
  exact ⟨hsame, hclean.trans hsame.symm, (htx.frame hquiet hfirst).1,
    fun _ _ h => htf.find?_cache hrest h⟩

end Run.IsQuiet

/-- A quiet computation that, once it went well without recording a failure, goes the same way
wherever the same series are kept and the variables that it reads are the same, and leaves
everything as it is. -/
structure Repeats {α : Type} (setting : Setting) (reads : String → Prop) (x : Run α) : Prop where
  quiet : x.IsQuiet
  again : ∀ {s s' u : State} {a : α}, x setting s = (.ok a, s') → s'.failures = s.failures →
    s'.KeptIn u → (∀ name, reads name → u.bindings.find? name = s.bindings.find? name) →
      x setting u = (.ok a, u)

namespace Repeats

variable {α β : Type} {setting : Setting} {reads : String → Prop} {x : Run α}

theorem mono {others : String → Prop} (hx : Repeats setting others x)
    (h : ∀ name, others name → reads name) : Repeats setting reads x where
  quiet := hx.quiet
  again hend hclean hkept hsame :=
    hx.again hend hclean hkept fun name hname => hsame name (h name hname)

/-- A computation that does nothing to the state and asks nothing of it. -/
theorem still {r : Except Stop α} (h : ∀ s, x setting s = (r, s)) (hquiet : x.IsQuiet) :
    Repeats setting reads x where
  quiet := hquiet
  again {s s' u a} hend _ _ _ := by
    rw [h s] at hend
    cases hend
    exact h u

theorem pure (a : α) : Repeats setting reads (pure a : Run α) :=
  still (fun s => pure_apply a setting s) (.pure a)

theorem bind {f : α → Run β} (hx : Repeats setting reads x)
    (hf : ∀ a, Repeats setting reads (f a)) : Repeats setting reads (x >>= f) where
  quiet := hx.quiet.bind fun a => (hf a).quiet
  again {s s' u b} hend hclean hkept hsame := by
    obtain ⟨a, t, hfirst, hrest⟩ := bind_eq_ok_iff.mp hend
    obtain ⟨hclean₁, hclean₂, hbindings, hlater⟩ :=
      hx.quiet.between (fun a => (hf a).quiet) hfirst hrest hclean
    have hfirst' := hx.again hfirst hclean₁ (hlater.trans hkept) hsame
    rw [bind_apply_ok hfirst']
    exact (hf a).again hrest hclean₂ hkept fun name hname => by rw [hbindings, hsame name hname]

theorem settle (hx : Repeats setting reads x) : Repeats setting reads (settle x) where
  quiet := hx.quiet.settle
  again {s s' u value} hend hclean hkept hsame := by
    obtain ⟨a, hx', rfl⟩ | ⟨f, t, hfailed, -, rfl⟩ := settle_cases hend
    · exact settle_of_ok (hx.again hx' hclean hkept hsame)
    · cases hx.quiet.nil_of_recording hfailed hclean

/-! ## Elementary computations -/

theorem fail (f : Failure) : Repeats setting reads (fail f : Run α) :=
  still (fun _ => rfl) ⟨row [], fun _ _ => rfl, .row (by simp)⟩

theorem now : Repeats setting reads now :=
  still (fun _ => rfl) ⟨row [], fun _ _ => rfl, .row (by simp)⟩

theorem nameValue (name : String) (h : name ≠ "null" → reads name) :
    Repeats setting reads (nameValue name) where
  quiet := ⟨_, Traces.nameValue name, .row (by simp [Step.isQuiet])⟩
  again {s s' u v} hend _ _ hsame := by
    rw [nameValue_apply] at hend ⊢
    obtain ⟨hv, rfl⟩ := Prod.ext_iff.mp hend
    simp only at hv
    by_cases hnull : name = "null"
    · simpa [hnull] using hv
    · rw [hsame name (h hnull)]
      rw [hv]

theorem callFunction (function : String) (arguments : List (Option Value)) :
    Repeats setting reads (callFunction function arguments) :=
  still (fun s => callFunction_apply function arguments setting s)
    ⟨_, Traces.callFunction function arguments, .row (by simp [Step.isQuiet])⟩

/-- A handle would have been refused with a complaint. -/
theorem refuseHandle (name : Option String) (value : Option Value) :
    Repeats setting reads (refuseHandle name value) where
  quiet := ⟨_, Traces.refuseHandle name value, .row (by simp [Step.isQuiet])⟩
  again {s s' u right} hend hclean _ _ := by
    rw [refuseHandle_apply] at hend ⊢
    cases hend
    have hnone : handleFailure? name value = none := by
      simpa using hclean
    simp [hnone]

theorem entityProperty (hkeeps : setting.keepsSeries = true) (entity : Entity) (name : String) :
    Repeats setting reads (property (.entity entity) name) where
  quiet := ⟨_, Traces.property (.entity entity) name, .row (by simp [Step.isQuiet])⟩
  again {s s' u v} hend _ hkept _ := by
    change Run.entityProperty entity name setting s = (.ok v, s') at hend
    change Run.entityProperty entity name setting u = (.ok v, u)
    cases he : entity.kind.endpoint? name with
    | none =>
        rw [entityProperty_of_unmapped he] at hend
        cases hend
    | some endpoint =>
        cases hk : s.kept? setting (cacheKey entity.id name) with
        | some series =>
            rw [entityProperty_of_kept he hk] at hend
            cases hend
            rw [State.kept?, if_pos hkeeps] at hk
            exact entityProperty_of_kept he ((if_pos hkeeps).trans (hkept _ series hk))
        | none =>
            rw [entityProperty_of_missing he hk] at hend
            cases hanswer : (s.fetch setting entity name endpoint).answer with
            | series series =>
                simp only [hanswer] at hend
                cases hend
                have hfound := hkept (cacheKey entity.id name) series
                rw [State.find?_cache_keeping, if_pos ⟨hkeeps, rfl⟩] at hfound
                exact entityProperty_of_kept he ((if_pos hkeeps).trans (hfound rfl))
            | error e =>
                simp only [hanswer] at hend
                cases hend
            | crash message =>
                simp only [hanswer] at hend
                cases hend

theorem property (hkeeps : setting.keepsSeries = true) (base : Value) (name : String) :
    Repeats setting reads (property base name) := by
  have hplain (h : ∀ entity, base ≠ .entity entity) :
      Repeats setting reads (Run.property base name) :=
    still (fun s => property_of_plain h name setting s)
      ⟨_, Traces.property base name, .row (by simp [Step.isQuiet])⟩
  cases base with
  | entity entity => exact entityProperty hkeeps entity name
  | scalar x => exact hplain (by simp)
  | series t => exact hplain (by simp)
  | list items => exact hplain (by simp)

theorem properties (hkeeps : setting.keepsSeries = true) (base : Value) (names : List String) :
    Repeats setting reads (properties base names) := by
  induction names generalizing base with
  | nil => exact pure base
  | cons name rest ih => exact (property hkeeps base name).bind ih

end Repeats

/-! ## Expressions -/

section Expressions

variable {setting : Setting} {reads : String → Prop}

theorem Expr.quiet_attemptAll (arguments : List Expr) : (Expr.attemptAll arguments).IsQuiet :=
  ⟨_, Expr.traces_attemptAll fun e _ => e.traces_eval,
    Expr.quiet_attemptsTrace fun e _ => e.quiet_trace⟩

theorem Expr.repeats_evalItems {items : List Expr}
    (h : ∀ e ∈ items, Repeats setting reads e.eval) :
    Repeats setting reads (Expr.evalItems items) := by
  induction items with
  | nil => exact Repeats.pure []
  | cons e rest ih =>
      obtain ⟨he, hrest⟩ := List.forall_mem_cons.mp h
      exact he.settle.bind fun value => (ih hrest).bind fun values => .pure _

theorem Expr.repeats_evalLinks {rest : List (Operator × Expr)}
    (h : ∀ link ∈ rest, Repeats setting reads link.2.eval) (left : Option Value) :
    Repeats setting reads (Expr.evalLinks left rest) := by
  induction rest generalizing left with
  | nil => exact Repeats.pure left
  | cons link rest ih =>
      obtain ⟨op, e⟩ := link
      obtain ⟨he, hrest⟩ := List.forall_mem_cons.mp h
      exact he.settle.bind fun value => (Repeats.refuseHandle _ value).bind fun right =>
        Repeats.now.bind fun moment => ih hrest _

/-- Arguments of which none fails. A failed one would be attempted anew and might end otherwise. -/
theorem Expr.attemptAll_again {arguments : List Expr}
    (h : ∀ e ∈ arguments, Repeats setting reads e.eval) {s s' u : State}
    {results : List (Except Failure Value)}
    (hend : Expr.attemptAll arguments setting s = (.ok results, s'))
    (hnone : results.filterMap failureOf? = []) (hclean : s'.failures = s.failures)
    (hkept : s'.KeptIn u)
    (hsame : ∀ name, reads name → u.bindings.find? name = s.bindings.find? name) :
    Expr.attemptAll arguments setting u = (.ok results, u) := by
  induction arguments generalizing s results with
  | nil =>
      cases hend
      rfl
  | cons e rest ih =>
      obtain ⟨he, hrest⟩ := List.forall_mem_cons.mp h
      rw [Expr.attemptAll] at hend ⊢
      obtain ⟨result, t, hfirst, hend⟩ := bind_eq_ok_iff.mp hend
      obtain ⟨others, t', hothers, hend⟩ := bind_eq_ok_iff.mp hend
      cases hend
      obtain ⟨v, hv, rfl⟩ | ⟨f, -, rfl⟩ := attempt_cases hfirst
      · have hquiet (_ : Value) : (Expr.attemptAll rest).IsQuiet := quiet_attemptAll rest
        obtain ⟨hclean₁, hclean₂, hbindings, hlater⟩ := he.quiet.between hquiet hv hothers hclean
        have hfirst' := he.again hv hclean₁ (hlater.trans hkept) hsame
        have hothers' := ih hrest hothers hnone hclean₂ fun name hname => by
          rw [hbindings, hsame name hname]
        rw [bind_apply_ok (attempt_of_ok hfirst'), bind_apply_ok hothers']
        rfl
      · cases hnone

theorem Expr.repeats_evalArguments {arguments : List Expr}
    (h : ∀ e ∈ arguments, Repeats setting reads e.eval) :
    Repeats setting reads (Expr.evalArguments arguments) where
  quiet := ⟨_, Expr.traces_evalArguments arguments, Expr.quiet_argumentsTrace arguments⟩
  again {s s' u values} hend hclean hkept hsame := by
    obtain ⟨results, t, hresults, hsettle⟩ := bind_eq_ok_iff.mp hend
    rw [settleResults_apply] at hsettle
    cases hsettle
    have hnone := (quiet_attemptAll arguments).nil_of_recording hresults hclean
    rw [hnone, State.recording_nil] at hclean hkept
    have hresults' := Expr.attemptAll_again h hresults hnone hclean hkept hsame
    refine (bind_apply_ok hresults').trans ?_
    rw [settleResults_apply, hnone, State.recording_nil]

/-- Every expression goes the same way again. -/
theorem Expr.repeats_eval (hkeeps : setting.keepsSeries = true) (e : Expr) :
    Repeats setting (fun name => e.Mentions name) e.eval := by
  induction e using Expr.induct with
  | literal l => exact .pure l.value
  | name name => exact .nameValue name .variable
  | array items ih =>
      refine .bind (Expr.repeats_evalItems fun e he => ?_) fun values => .pure _
      exact (ih e he).mono fun name => .item he
  | call function arguments ih =>
      have hvalue : (Expr.call function arguments).eval =
          Expr.evalArguments arguments >>= callFunction function :=
        (bind_assoc_apply _ _ _).symm
      rw [hvalue]
      refine .bind (Expr.repeats_evalArguments fun e he => ?_) fun values => .callFunction _ values
      exact (ih e he).mono fun name => .argument he
  | member base names ih =>
      exact (ih.mono fun name => .base).bind fun value => .properties hkeeps value names
  | chain first rest hfirst hrest =>
      have hfirst' : Repeats setting (fun name => (Expr.chain first rest).Mentions name)
          first.eval := hfirst.mono fun name => .first
      by_cases hempty : rest.isEmpty = true
      · simpa only [Expr.eval, hempty, if_true] using hfirst'
      · simp only [Expr.eval, hempty]
        refine hfirst'.settle.bind fun left => ?_
        refine .bind (Expr.repeats_evalLinks (fun link hlink => ?_) left) fun value => ?_
        · exact (hrest link hlink).mono fun name => .operand hlink
        · cases value with
          | none => exact .fail _
          | some v => exact .pure v
  | not operand ih =>
      exact (ih.mono fun name => .negated).settle.bind fun value =>
        Repeats.now.bind fun moment => .pure _
  | unsupported => exact .fail _

end Expressions

/-- Whatever happens after an expression has a value without recording a failure, as long as the
variables that it mentions stay the same it has the same value again, without a call to the source
and without recording anything. -/
theorem Expr.eval_again (e : Expr) (setting : Setting) (s s' : State) (v : Value)
    (between : List Step) : setting.keepsSeries = true → e.eval setting s = (.ok v, s') →
    s'.diagnostics = s.diagnostics →
    (∀ name, e.Mentions name →
      (replay setting s' between).bindings.find? name = s.bindings.find? name) →
    e.eval setting (replay setting s' between) = (.ok v, replay setting s' between) := by
  intro hkeeps hend hclean hsame
  have hlength : s'.failures.length = s.failures.length := by
    simpa only [State.diagnostics, List.length_map] using congrArg List.length hclean
  have hgrows := e.traces_eval.failures_isPrefix hend
  have hfailures : s'.failures = s.failures := (hgrows.eq_of_length hlength.symm).symm
  exact (e.repeats_eval hkeeps).again hend hfailures
    (fun _ _ h => find?_cache_replay between h) hsame

/-- A setting in which the source gives a series once and crashes when it is asked again. -/
def Setting.crashingLater : Setting where
  source := .scripted [⟨⟨.protocolTvl, "x"⟩, [none, some (.crash none)]⟩]
    (.ofData [(⟨.protocolTvl, "x"⟩, .single 1 none)])

/-- An average of a metric over a window given by a variable. -/
def Expr.averageTvl : Expr :=
  .call "ma" [.member (.call "protocol" [.literal (.string "x")]) ["tvl"], .variable "n"]

theorem Expr.eq_of_mentions_averageTvl {name : String} (h : averageTvl.Mentions name) :
    name = "n" := by
  rcases h with _ | _ | ⟨he, h⟩
  rcases List.mem_cons.mp he with rfl | he
  · rcases h with _ | _ | _ | ⟨_ | _ | ⟨he, h⟩⟩
    cases List.mem_singleton.mp he
    cases h
  · cases List.mem_singleton.mp he
    cases h
    rfl

theorem Expr.eval_again_averageTvl :
    ∃ s v s' u, averageTvl.eval .crashingLater s = (.ok v, s') ∧
      s'.diagnostics = s.diagnostics ∧
      u = replay .crashingLater s'
        [.access (.entity ⟨.protocol, "y"⟩) "tvl", .bind "m" .null, .unbind "k"] ∧
      u.bindings.find? "n" = s.bindings.find? "n" ∧
      averageTvl.eval .crashingLater u = (.ok v, u) := by
  have hok : (averageTvl.eval .crashingLater
      { bindings := NameMap.empty.insert "n" (.number 2) }).1.isOk = true := by
    decide +kernel
  have hclean : (averageTvl.eval .crashingLater
      { bindings := NameMap.empty.insert "n" (.number 2) }).2.diagnostics = [] := by
    decide +kernel
  generalize hs : ({ bindings := NameMap.empty.insert "n" (.number 2) } : State) = s at hok hclean
  have hclean' : (averageTvl.eval .crashingLater s).2.diagnostics = s.diagnostics := by
    rw [hclean, ← hs]
    rfl
  rcases hend : averageTvl.eval .crashingLater s with ⟨stop | v, s'⟩
  · rw [hend] at hok
    cases hok
  · rw [hend] at hclean'
    have hframe := (averageTvl.traces_eval.frame averageTvl.quiet_trace hend).1
    have hquiet : (Step.access (.entity ⟨.protocol, "y"⟩) "tvl").isQuiet = true := rfl
    have haccess := (Step.frame_of_quiet .crashingLater s' hquiet).1
    have hsame : (replay .crashingLater s' [.access (.entity ⟨.protocol, "y"⟩) "tvl",
        .bind "m" .null, .unbind "k"]).bindings.find? "n" = s.bindings.find? "n" := by
      rw [← hframe, ← haccess]
      exact (NameMap.find?_erase_of_ne _ (by decide)).trans
        (NameMap.find?_insert_of_ne _ (by decide) _)
    refine ⟨s, v, s', _, hend, hclean', rfl, hsame, ?_⟩
    refine eval_again _ _ s s' v _ rfl hend hclean' fun name hname => ?_
    obtain rfl := eq_of_mentions_averageTvl hname
    exact hsame

end MetricScript
