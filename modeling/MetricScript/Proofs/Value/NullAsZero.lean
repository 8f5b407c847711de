import MetricScript.Builtin.Apply
import MetricScript.Proofs.Series.Causal
import MetricScript.Proofs.Value.Alignment
import MetricScript.Proofs.Value.Truth

/-! # No value counts as zero

Arithmetic, orders, logic, averages, differences and choices read a point without a value as zero.
Each does so in its own place, and it makes no difference to any of them whether zero is put there
instead, at any of these points. Equality tells the two apart, the exponential average does at the
first point, and an absolute value does everywhere. -/

namespace MetricScript

/-! ## Putting zero in the place of no value -/

namespace Series

variable {α : Type}

/-- Zero in the place of no value, at the chosen positions. -/
def fill (chosen : Nat → Bool) (s : Series) : Series :=
  s.mapIdx fun i x => if chosen i then some (orZero x) else x

/-- Zero in the place of no value, everywhere. -/
def filled (s : Series) : Series :=
  s.mapValues fun x => some (orZero x)

theorem filled_fill (chosen : Nat → Bool) (s : Series) : (s.fill chosen).filled = s.filled := by
  refine congrArg mk (List.ext_getElem ?_ ?_)
  · simp [fill, mapIdx]
  · intro i _ _
    by_cases h : chosen i <;> simp [fill, mapIdx, h, orZero]

/-- What depends on a series only up to reading no value as zero. -/
def ReadsZero (F : Series → α) : Prop :=
  ∀ s, F s.filled = F s

/-- It makes no difference to it where zero stands in the place of no value. -/
theorem ReadsZero.fill {F : Series → α} (hF : ReadsZero F) (chosen : Nat → Bool) (s : Series) :
    F (s.fill chosen) = F s := by
  rw [← hF (s.fill chosen), filled_fill, hF]

theorem fill_cons (chosen : Nat → Bool) (first : Point) (rest : List Point) :
    fill chosen ⟨first :: rest⟩ =
      ⟨⟨first.time, if chosen 0 then some (orZero first.value) else first.value⟩ ::
        (fill (fun i => chosen (i + 1)) ⟨rest⟩).points⟩ := by
  simp [fill, mapIdx, List.mapIdx_cons]

/-! ## Transforms -/

theorem orZero_some_orZero (x : Option Float) : orZero (some (orZero x)) = orZero x := rfl

theorem sum_filled (values : List (Option Float)) :
    sum (values.map fun x => some (orZero x)) = sum values := by
  simp only [sum, List.foldl_map, orZero_some_orZero]

theorem trailing?_map (g : Option Float → Option Float) (values : List (Option Float))
    (window i : Nat) :
    trailing? (values.map g) window i = (trailing? values window i).map (List.map g) := by
  unfold trailing?
  split
  · rfl
  · simp only [Option.map_some, List.map_drop, List.map_take]

theorem readsZero_movingAverage (window : Nat) : ReadsZero (movingAverage window) := by
  intro s
  simp only [movingAverage, filled, values_mapValues, trailing?_map, Option.map_map,
    Function.comp_def, sum_filled]
  exact mapIdx_mapValues _ _ s

theorem readsZero_averageFrom (alpha : Float) (previous : Option Float) :
    ReadsZero fun s => averageFrom alpha previous s.points := by
  rintro ⟨points⟩
  induction points generalizing previous with
  | nil => rfl
  | cons p rest ih =>
      change averageFrom alpha previous
        (⟨p.time, some (orZero p.value)⟩ :: (filled ⟨rest⟩).points) = _
      simp only [averageFrom, orZero_some_orZero]
      exact congrArg _ (ih _)

theorem valueAt_exponentialAverage_zero (window : Nat) (s : Series) :
    (s.exponentialAverage window).valueAt 0 = s.valueAt 0 := by
  obtain ⟨points⟩ := s
  cases points <;> rfl

/-- The exponential average takes its first value as it is, and any other one as a number. -/
theorem exponentialAverage_fill_iff (chosen : Nat → Bool) (window : Nat) (s : Series) :
    (s.fill chosen).exponentialAverage window = s.exponentialAverage window ↔
      (s.fill chosen).valueAt 0 = s.valueAt 0 := by
  constructor
  · intro h
    rw [← valueAt_exponentialAverage_zero window s, ← h, valueAt_exponentialAverage_zero]
  · intro h
    obtain ⟨points⟩ := s
    cases points with
    | nil => rfl
    | cons first rest =>
        have hfirst : (if chosen 0 then some (orZero first.value) else first.value) =
            first.value := by
          rw [fill_cons] at h
          exact h
        have hrest :=
          (readsZero_averageFrom (2.0 / (window.toUInt64.toFloat + 1.0)) first.value).fill
            (fun i => chosen (i + 1)) ⟨rest⟩
        simp only [fill_cons, hfirst, exponentialAverage, hrest]

theorem orZero_valueAt_filled (s : Series) (i : Nat) :
    orZero (s.filled.valueAt i) = orZero (s.valueAt i) := by
  cases h : s.points[i]? <;> simp [filled, mapValues, valueAt, h, orZero]

theorem readsZero_stepwise (f : (previous current : Float) → Float) : ReadsZero (stepwise f) := by
  intro s
  simp only [stepwise_eq_mapIdx, orZero_valueAt_filled]
  exact mapIdx_mapValues _ _ s

end Series

open Series (ReadsZero orZero)

@[simp] theorem truthyPoint_orZero (x : Option Float) :
    truthyPoint (some (orZero x)) = truthyPoint x := by
  cases x with
  | none => decide
  | some x => rfl

/-! ## Operators and negation -/

namespace Operator

theorem Family.read?_series (family : Family) (s : Series) :
    family.read? (some (.series s)) = some (.series s) := by
  cases family <;> rfl

variable {op : Operator} (h : op.isEquality = false)

include h

theorem point_eq_orZero (x y : Option Float) :
    op.point x y = op.point (some (orZero x)) (some (orZero y)) := by
  cases op with
  | equal => cases h
  | notEqual => cases h
  | and => simp only [point, truthyPoint_orZero]
  | or => simp only [point, truthyPoint_orZero]
  | _ => rfl

/-- It tells two values apart only if they are different numbers, no value being zero. -/
theorem point_congr {x x' y y' : Option Float} (hx : orZero x = orZero x')
    (hy : orZero y = orZero y') : op.point x y = op.point x' y' := by
  rw [point_eq_orZero h x y, hx, hy, ← point_eq_orZero h]

/-- Unless both operands are texts, it combines the values that it reads. -/
theorem apply_eq_combine {left right : Option Value} {a b : Reading}
    (hnone : left.bind Value.string? = none ∨ right.bind Value.string? = none)
    (ha : op.family.read? left = some a) (hb : op.family.read? right = some b) (now : Timestamp) :
    op.apply left right now = Reading.combine (fun x y => some (op.point x y)) now a b := by
  have hanswer (x y : Option Float) : op.answer left right x y = op.point x y := by
    by_cases hone : OneText left right
    · rw [answer_of_one_text op hone, h]
      rfl
    · have hboth : left.bind Value.string? = none ∧ right.bind Value.string? = none := by
        rcases hnone with hnone | hnone <;> simpa [OneText, hnone] using hone
      exact answer_of_no_text hboth.1 hboth.2 x y
  simp only [apply_of_read? ha hb, hanswer]

theorem readsZero_apply_left (other : Option Value) (now : Timestamp) :
    ReadsZero fun s => op.apply (some (.series s)) other now := by
  intro s
  beta_reduce
  cases hread : op.family.read? other with
  | none => rw [apply_of_unread (Or.inr hread), apply_of_unread (Or.inr hread)]
  | some b =>
      rw [apply_eq_combine h (Or.inl rfl) (Family.read?_series _ s.filled) hread,
        apply_eq_combine h (Or.inl rfl) (Family.read?_series _ s) hread, Series.filled,
        Reading.combine_mapValues_left _ now rfl]
      have hpoint (x y : Option Float) : op.point (some (orZero x)) y = op.point x y :=
        point_congr h (Series.orZero_some_orZero x) rfl
      simp only [hpoint]

theorem readsZero_apply_right (other : Option Value) (now : Timestamp) :
    ReadsZero fun s => op.apply other (some (.series s)) now := by
  intro s
  beta_reduce
  cases hread : op.family.read? other with
  | none => rw [apply_of_unread (Or.inl hread), apply_of_unread (Or.inl hread)]
  | some a =>
      rw [apply_eq_combine h (Or.inr rfl) hread (Family.read?_series _ s.filled),
        apply_eq_combine h (Or.inr rfl) hread (Family.read?_series _ s), Series.filled,
        Reading.combine_mapValues_right _ now rfl]
      have hpoint (x y : Option Float) : op.point x (some (orZero y)) = op.point x y :=
        point_congr h rfl (Series.orZero_some_orZero y)
      simp only [hpoint]

end Operator

theorem Value.readsZero_negate (now : Timestamp) :
    ReadsZero fun s => negate (some (.series s)) now := by
  intro s
  simp only [negate, Series.filled, Series.mapValues_mapValues, truthyPoint_orZero]

/-! ## Built-in functions -/

namespace Builtin

variable {s t : Series} (rest : List (Option Value)) (defaultWindow : Nat)

theorem readsZero_select (thenBranch elseBranch : Option Value) (now : Timestamp) :
    ReadsZero fun s => select (some (.series s)) thenBranch elseBranch now := by
  intro s
  simp only [select, Series.filled, Series.mapIdx_mapValues, truthyPoint_orZero]

theorem average_congr (b : Builtin) {transform : Nat → Series → Series}
    (h : ∀ window, transform window t = transform window s) :
    b.average transform (some (.series t) :: rest) defaultWindow =
      b.average transform (some (.series s) :: rest) defaultWindow := by
  change (b.windowOf (some (.series t) :: rest) defaultWindow).map _ =
    (b.windowOf (some (.series t) :: rest) defaultWindow).map _
  simp only [h]

theorem transformOnly_congr (b : Builtin) {transform : Series → Series}
    (h : transform t = transform s) :
    b.transformOnly transform (some (.series t) :: rest) =
      b.transformOnly transform (some (.series s) :: rest) := by
  cases rest with
  | nil => exact congrArg (fun u => Except.ok (Value.series u)) h
  | cons => rfl

/-- A call gives the same, whatever its other arguments are. -/
theorem apply_fill {b : Builtin} {chosen : Nat → Bool} (habs : b ≠ .abs)
    (hema : b = .ema → (s.fill chosen).valueAt 0 = s.valueAt 0) (now : Timestamp) :
    b.apply (some (.series (s.fill chosen)) :: rest) defaultWindow now =
      b.apply (some (.series s) :: rest) defaultWindow now := by
  cases b with
  | ma =>
      exact average_congr rest defaultWindow .ma fun window =>
        (Series.readsZero_movingAverage window).fill chosen s
  | ema =>
      exact average_congr rest defaultWindow .ema fun window =>
        (Series.exponentialAverage_fill_iff chosen window s).mpr (hema rfl)
  | diff => exact transformOnly_congr rest .diff ((Series.readsZero_stepwise _).fill chosen s)
  | abs => exact absurd rfl habs
  | pctChange =>
      exact transformOnly_congr rest .pctChange ((Series.readsZero_stepwise _).fill chosen s)
  | choose => exact congrArg Except.ok ((readsZero_select _ _ now).fill chosen s)

end Builtin

/-! ## The law and its exceptions -/

namespace Series

/-- What tells no value from zero, value by value, finds zero wherever it was put. -/
theorem fill_eq_self_of_map_eq {α : Type} {g : Option Float → α} (hg : g none ≠ g (some 0))
    {chosen : Nat → Bool} {s : Series}
    (h : (s.fill chosen).values.map g = s.values.map g) : s.fill chosen = s := by
  obtain ⟨points⟩ := s
  induction points generalizing chosen with
  | nil => rfl
  | cons p rest ih =>
      rw [fill_cons] at h ⊢
      obtain ⟨hfirst, hrest⟩ := List.cons.inj h
      have hvalue : (if chosen 0 then some (orZero p.value) else p.value) = p.value := by
        cases hx : p.value with
        | none =>
            have hchosen : chosen 0 ≠ true := fun hchosen =>
              hg (by simpa [hx, hchosen, orZero] using hfirst.symm)
            rw [if_neg hchosen]
        | some x => exact ite_self _
      rw [hvalue, ih hrest]

/-- Held against zero, a series shows by either equality wherever zero was put. -/
theorem isEquality_zero_fill_iff {op : Operator} (h : op.isEquality = true) (chosen : Nat → Bool)
    (s : Series) (now : Timestamp) :
    op.apply (some (.series (s.fill chosen))) (some (.number 0)) now =
        op.apply (some (.series s)) (some (.number 0)) now ↔
      s.fill chosen = s := by
  obtain ⟨answer, htells, happly⟩ : ∃ answer : Option Float → Bool, answer none ≠ answer (some 0) ∧
      ∀ t, op.apply (some (.series t)) (some (.number 0)) now =
        t.mapValues fun x => some (indicator (answer x)) := by
    cases op with
    | equal => exact ⟨fun x => x == some 0, by decide, fun _ => rfl⟩
    | notEqual => exact ⟨fun x => x != some 0, by decide, fun _ => rfl⟩
    | _ => cases h
  constructor
  · intro heq
    rw [happly, happly] at heq
    have hvalues := congrArg values heq
    rw [values_mapValues, values_mapValues] at hvalues
    refine fill_eq_self_of_map_eq (fun hzero => ?_) hvalues
    exact htells (indicator_injective (Option.some.inj hzero))
  · intro heq
    rw [heq]

/-- So it does by its absolute values. -/
theorem absolute_fill_iff (chosen : Nat → Bool) (s : Series) :
    (s.fill chosen).absolute = s.absolute ↔ s.fill chosen = s := by
  constructor
  · intro h
    have hvalues : ((s.fill chosen).mapValues (Option.map Float.abs)).values =
        (s.mapValues (Option.map Float.abs)).values := congrArg values h
    rw [values_mapValues, values_mapValues] at hvalues
    exact fill_eq_self_of_map_eq (by simp) hvalues
  · intro h
    rw [h]

/-- Zero may be put in the place of no value at any positions of a series: no operator but the two
equalities tells the difference, on either side and whatever the other operand is, nor does negation
or a call of a built-in function, save that of absolute values, and save that of an exponential
average if it changes the first value. All of these exceptions tell the difference. -/
theorem null_as_zero (s : Series) (chosen : Nat → Bool) (now : Timestamp) :
    (∀ (op : Operator) (other : Option Value), op.isEquality = false →
      op.apply (some (.series (s.fill chosen))) other now =
        op.apply (some (.series s)) other now ∧
      op.apply other (some (.series (s.fill chosen))) now =
        op.apply other (some (.series s)) now) ∧
    Value.negate (some (.series (s.fill chosen))) now = Value.negate (some (.series s)) now ∧
    (∀ (b : Builtin) (rest : List (Option Value)) (defaultWindow : Nat), b ≠ .abs →
      (b = .ema → (s.fill chosen).valueAt 0 = s.valueAt 0) →
      b.apply (some (.series (s.fill chosen)) :: rest) defaultWindow now =
        b.apply (some (.series s) :: rest) defaultWindow now) ∧
    (∀ op : Operator, op.isEquality = true →
      (op.apply (some (.series (s.fill chosen))) (some (.number 0)) now =
          op.apply (some (.series s)) (some (.number 0)) now ↔ s.fill chosen = s)) ∧
    ((s.fill chosen).absolute = s.absolute ↔ s.fill chosen = s) ∧
    ∀ window, (s.fill chosen).exponentialAverage window = s.exponentialAverage window ↔
      (s.fill chosen).valueAt 0 = s.valueAt 0 := by
  refine ⟨?_, (Value.readsZero_negate now).fill chosen s, ?_,
    fun op h => isEquality_zero_fill_iff h chosen s now, absolute_fill_iff chosen s,
    fun window => exponentialAverage_fill_iff chosen window s⟩
  · intro op other h
    exact ⟨(Operator.readsZero_apply_left h other now).fill chosen s,
      (Operator.readsZero_apply_right h other now).fill chosen s⟩
  · intro b rest defaultWindow habs hema
    exact Builtin.apply_fill rest defaultWindow habs hema now

/-- Zero in the place of the last value, but not of the first. -/
theorem null_as_zero_last :
    fill (· == 2) ⟨[⟨1, none⟩, ⟨2, some 4⟩, ⟨3, none⟩]⟩ =
      ⟨[⟨1, none⟩, ⟨2, some 4⟩, ⟨3, some 0⟩]⟩ ∧
    Operator.divide.isEquality = false ∧
    Operator.divide.apply (some (.series ⟨[⟨2, none⟩, ⟨3, some 1⟩]⟩))
        (some (.series ⟨[⟨1, none⟩, ⟨2, some 4⟩, ⟨3, some 0⟩]⟩)) 9 =
      Operator.divide.apply (some (.series ⟨[⟨2, none⟩, ⟨3, some 1⟩]⟩))
        (some (.series ⟨[⟨1, none⟩, ⟨2, some 4⟩, ⟨3, none⟩]⟩)) 9 ∧
    Builtin.ema ≠ .abs ∧
    valueAt ⟨[⟨1, none⟩, ⟨2, some 4⟩, ⟨3, some 0⟩]⟩ 0 =
      valueAt ⟨[⟨1, none⟩, ⟨2, some 4⟩, ⟨3, none⟩]⟩ 0 ∧
    Builtin.ema.apply [some (.series ⟨[⟨1, none⟩, ⟨2, some 4⟩, ⟨3, some 0⟩]⟩)] 3 9 =
      Builtin.ema.apply [some (.series ⟨[⟨1, none⟩, ⟨2, some 4⟩, ⟨3, none⟩]⟩)] 3 9 := by
  have hlaw := null_as_zero ⟨[⟨1, none⟩, ⟨2, some 4⟩, ⟨3, none⟩]⟩ (· == 2) 9
  refine ⟨rfl, rfl, ?_, by decide, rfl, ?_⟩
  · exact (hlaw.1 .divide _ rfl).2
  · exact hlaw.2.2.1 .ema [] 3 (by decide) fun _ => rfl

end Series

end MetricScript
