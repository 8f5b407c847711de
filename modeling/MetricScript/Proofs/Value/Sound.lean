import MetricScript.Builtin.Apply
import MetricScript.Proofs.Run.Outcome
import MetricScript.Proofs.Series.Increasing
import MetricScript.Value.Pointwise

/-! # What holds of a value at every depth

A value is sound for a property of series if every series in it has the property, within lists of any
depth, and if items are missing from these lists only where that is granted. Operators, built-in
functions and properties of values give sound values from sound ones. -/

namespace MetricScript

/-- A property of series that is passed on whenever a series is made from others. -/
structure Series.Hereditary (P : Series → Prop) : Prop where
  empty : P .empty
  single : ∀ time value, P (.single time value)
  of_times : ∀ {s t : Series}, P s → t.times = s.times → P t
  align : ∀ {s t : Series} f, P s → P t → P (s.align f t)

theorem Series.hereditary_increasing : Hereditary Increasing where
  empty := increasing_empty
  single := increasing_single
  of_times := Increasing.of_times
  align f hs ht := hs.align ht f

theorem Series.hereditary_true : Hereditary fun _ => True where
  empty := trivial
  single _ _ := trivial
  of_times _ _ := trivial
  align _ _ _ := trivial

/-- Every series within has the property, and only if it is granted something is missing. -/
inductive Value.Sound (P : Series → Prop) (granted : Prop) : Option Value → Prop where
  | missing (h : granted) : Value.Sound P granted none
  | scalar (x : Scalar) : Value.Sound P granted (some (.scalar x))
  | series {s : Series} (h : P s) : Value.Sound P granted (some (.series s))
  | entity (entity : Entity) : Value.Sound P granted (some (.entity entity))
  | list {items : List (Option Value)} (h : ∀ item ∈ items, Value.Sound P granted item) :
      Value.Sound P granted (some (.list items))

namespace Value.Sound

variable {P : Series → Prop} {granted granted' : Prop}

theorem mono {v : Option Value} (h : Value.Sound P granted v) (hg : granted → granted') :
    Value.Sound P granted' v := by
  induction h with
  | missing h => exact .missing (hg h)
  | scalar x => exact .scalar x
  | series h => exact .series h
  | entity entity => exact .entity entity
  | list _ ih => exact .list ih

theorem of_series {s : Series} (h : Value.Sound P granted (some (.series s))) : P s := by
  cases h with
  | series h => exact h

theorem of_item {items : List (Option Value)} {item : Option Value}
    (h : Value.Sound P granted (some (.list items))) (hitem : item ∈ items) :
    Value.Sound P granted item := by
  cases h with
  | list h => exact h item hitem

theorem of_missing (h : Value.Sound P granted none) : granted := by
  cases h with
  | missing h => exact h

end Value.Sound

/-! ## Parts of a value -/

/-- A part of a value: the value itself, or a part of an item of a list. What is missing counts as a
part as well. -/
inductive Value.Part (part : Option Value) : Option Value → Prop where
  | self : Value.Part part part
  | item {items : List (Option Value)} {item : Option Value} (hitem : item ∈ items)
      (h : Value.Part part item) : Value.Part part (some (.list items))

namespace Value.Sound

variable {P : Series → Prop} {granted : Prop}

theorem of_part {part v : Option Value} (h : Value.Sound P granted v) (hpart : Value.Part part v) :
    Value.Sound P granted part := by
  induction hpart with
  | self => exact h
  | item hitem _ ih => exact ih (h.of_item hitem)

/-- A value is sound already if the series among its parts have the property and something may be
missing. -/
theorem of_parts (v : Value)
    (h : ∀ s, Value.Part (some (.series s)) (some v) → P s) : Value.Sound P True (some v) :=
  match v with
  | .scalar x => .scalar x
  | .series s => .series (h s .self)
  | .entity e => .entity e
  | .list items => .list fun item hitem =>
    match item with
    | none => .missing trivial
    | some w => of_parts w fun s hs => h s (.item hitem hs)
termination_by v
decreasing_by
  have hsmall := List.sizeOf_lt_of_mem hitem
  simp only [Option.some.sizeOf_spec] at hsmall
  simp only [Value.list.sizeOf_spec]
  omega

end Value.Sound

/-! ## Operators -/

/-- An operand is nothing, no series, or a series with the property. -/
def SeriesOperand (P : Series → Prop) (operand : Option Value) : Prop :=
  ∀ s, operand = some (.series s) → P s

/-- A reading that is a series comes from an operand that is this series. -/
theorem Reading.eq_series_of_compared {operand : Option Value} {s : Series}
    (h : Reading.compared operand = .series s) : operand = some (.series s) := by
  rcases operand with _ | (_ | _ | _ | _) <;> simp_all [Reading.compared]

theorem Reading.eq_series_of_logical {operand : Option Value} {s : Series}
    (h : Reading.logical operand = .series s) : operand = some (.series s) := by
  rcases operand with _ | (_ | _ | _ | _) <;> simp_all [Reading.logical]

theorem Reading.eq_series_of_arithmetic? {operand : Option Value} {s : Series}
    (h : Reading.arithmetic? operand = some (.series s)) : operand = some (.series s) := by
  rcases operand with _ | ((_ | _ | _ | _) | _ | _ | _) <;> simp_all [Reading.arithmetic?]

theorem Value.Sound.seriesOperand {P : Series → Prop} {granted : Prop} {v : Option Value}
    (h : Value.Sound P granted v) : SeriesOperand P v := by
  rintro s rfl
  exact h.of_series

section Operators

variable {P : Series → Prop} (hP : Series.Hereditary P)

include hP

theorem Series.Hereditary.mapValues {s : Series} (h : P s) (f : Option Float → Option Float) :
    P (s.mapValues f) :=
  hP.of_times h (s.times_mapValues f)

theorem Reading.combine_hereditary {a b : Reading} (ha : ∀ s, a = .series s → P s)
    (hb : ∀ s, b = .series s → P s) (f : Option Float → Option Float → Option Float)
    (now : Timestamp) : P (Reading.combine f now a b) := by
  cases a with
  | series s =>
      cases b with
      | series t => exact hP.align f (ha s rfl) (hb t rfl)
      | constant y => exact hP.mapValues (ha s rfl) fun x => f x y
  | constant x =>
      cases b with
      | series t => exact hP.mapValues (hb t rfl) fun y => f x y
      | constant y => exact hP.single now _

variable {left right : Option Value} (hl : SeriesOperand P left)

include hl

theorem Operator.unequalTo_hereditary (op : Operator) (now : Timestamp) :
    P (op.unequalTo left now) := by
  unfold Operator.unequalTo
  split
  · rename_i s
    exact hP.mapValues (hl s rfl) _
  · exact hP.single now _

theorem Value.negate_hereditary (now : Timestamp) : P (Value.negate left now) := by
  unfold Value.negate
  split
  · rename_i s
    exact hP.mapValues (hl s rfl) _
  · exact hP.single now _
  · exact hP.single now _

variable (hr : SeriesOperand P right)

include hr

theorem Operator.calculate_hereditary (f : Float → Float → Float) (now : Timestamp) :
    P (Operator.calculate f left right now) := by
  unfold Operator.calculate
  split
  · rename_i a b ha hb
    refine Reading.combine_hereditary hP (fun s h => ?_) (fun s h => ?_) _ now
    · exact hl s (Reading.eq_series_of_arithmetic? (h ▸ ha))
    · exact hr s (Reading.eq_series_of_arithmetic? (h ▸ hb))
  · exact hP.empty

theorem Operator.compareReadings_hereditary (op : Operator) (now : Timestamp) :
    P (Operator.compare.compareReadings op left right now) :=
  Reading.combine_hereditary hP (fun s h => hl s (Reading.eq_series_of_compared h))
    (fun s h => hr s (Reading.eq_series_of_compared h)) _ now

theorem Operator.compare_hereditary (op : Operator) (now : Timestamp) :
    P (op.compare left right now) := by
  unfold Operator.compare
  split
  · exact hP.single now _
  · split
    · exact Operator.unequalTo_hereditary hP hr op now
    · exact Operator.compareReadings_hereditary hP hl hr op now
  · split
    · exact Operator.unequalTo_hereditary hP hl op now
    · exact Operator.compareReadings_hereditary hP hl hr op now
  · exact Operator.compareReadings_hereditary hP hl hr op now

theorem Operator.decideBoth_hereditary (f : Bool → Bool → Bool) (now : Timestamp) :
    P (Operator.decideBoth f left right now) :=
  Reading.combine_hereditary hP (fun s h => hl s (Reading.eq_series_of_logical h))
    (fun s h => hr s (Reading.eq_series_of_logical h)) _ now

/-- Every operator passes the property on. -/
theorem Operator.apply_hereditary (op : Operator) (now : Timestamp) :
    P (op.apply left right now) := by
  cases op
  case add => exact Operator.calculate_hereditary hP hl hr _ now
  case subtract => exact Operator.calculate_hereditary hP hl hr _ now
  case multiply => exact Operator.calculate_hereditary hP hl hr _ now
  case divide =>
      exact Operator.calculate_hereditary hP hl hr (fun x y => if y == 0 then 0 else x / y) now
  case and => exact Operator.decideBoth_hereditary hP hl hr _ now
  case or => exact Operator.decideBoth_hereditary hP hl hr _ now
  all_goals exact Operator.compare_hereditary hP hl hr _ now

end Operators

/-! ## Built-in functions -/

theorem Builtin.mem_of_argument? {arguments : List (Option Value)} {i : Nat} {v : Value}
    (h : argument? arguments i = some v) : some v ∈ arguments :=
  List.mem_of_getElem? (Option.join_eq_some_iff.mp h)

section Builtins

variable {P : Series → Prop} (hP : Series.Hereditary P) {granted : Prop}

include hP

theorem Builtin.wholeBranch_sound {branch : Option Value}
    (h : ∀ v, branch = some v → Value.Sound P granted (some v)) (now : Timestamp) :
    Value.Sound P granted (some (wholeBranch branch now)) := by
  unfold wholeBranch
  split
  · exact .scalar _
  · exact .series (hP.single now _)
  · exact h _ rfl
  · exact .series (hP.single now _)

/-- A choice is a series with the times of its condition, or one of its branches. -/
theorem Builtin.select_sound {condition thenBranch elseBranch : Option Value}
    (hc : SeriesOperand P condition)
    (ht : ∀ v, thenBranch = some v → Value.Sound P granted (some v))
    (he : ∀ v, elseBranch = some v → Value.Sound P granted (some v)) (now : Timestamp) :
    Value.Sound P granted (some (select condition thenBranch elseBranch now)) := by
  unfold select
  split
  · rename_i s
    exact .series (hP.of_times (hc s rfl) (s.times_mapIdx _))
  · split
    · exact wholeBranch_sound hP ht now
    · exact wholeBranch_sound hP he now

theorem Builtin.average_sound {b : Builtin} {transform : Nat → Series → Series}
    (htimes : ∀ n s, (transform n s).times = s.times) {arguments : List (Option Value)}
    (h : ∀ a ∈ arguments, Value.Sound P granted a) {window : Nat} {v : Value}
    (hv : b.average transform arguments window = .ok v) : Value.Sound P granted (some v) := by
  unfold average at hv
  split at hv
  · cases hv
  · rename_i s hs
    obtain ⟨first, hfirst, hseries⟩ := Option.bind_eq_some_iff.mp hs
    have hP' : P s := by
      cases first <;> simp only [Value.series?, Option.some.injEq, reduceCtorEq] at hseries
      subst hseries
      exact (h _ (mem_of_argument? hfirst)).of_series
    cases hw : b.windowOf arguments window with
    | error f => simp [hw, Except.map] at hv
    | ok n =>
        simp only [hw, Except.map, Except.ok.injEq] at hv
        subst hv
        exact .series (hP.of_times hP' (htimes n s))

theorem Builtin.transformOnly_sound {b : Builtin} {transform : Series → Series}
    (htimes : ∀ s, (transform s).times = s.times) {arguments : List (Option Value)}
    (h : ∀ a ∈ arguments, Value.Sound P granted a) {v : Value}
    (hv : b.transformOnly transform arguments = .ok v) : Value.Sound P granted (some v) := by
  unfold transformOnly at hv
  split at hv
  · rename_i s hs
    cases hv
    unfold onlySeries? at hs
    split at hs
    · cases hs
      exact .series (hP.of_times (h _ List.mem_cons_self).of_series (htimes s))
    · cases hs
  · cases hv

/-- What a built-in function answers to sound arguments is sound. -/
theorem Builtin.apply_sound {b : Builtin} {arguments : List (Option Value)}
    (h : ∀ a ∈ arguments, Value.Sound P granted a) {window : Nat} {now : Timestamp} {v : Value}
    (hv : b.apply arguments window now = .ok v) : Value.Sound P granted (some v) := by
  cases b with
  | ma => exact average_sound hP Series.times_movingAverage h hv
  | ema => exact average_sound hP Series.times_exponentialAverage h hv
  | diff => exact transformOnly_sound hP (Series.times_stepwise _) h hv
  | abs => exact transformOnly_sound hP Series.times_absolute h hv
  | pctChange => exact transformOnly_sound hP (Series.times_stepwise _) h hv
  | choose =>
      have hargument : ∀ i v, argument? arguments i = some v → Value.Sound P granted (some v) :=
        fun i v hv => h _ (mem_of_argument? hv)
      cases hv
      exact select_sound hP (fun s hs => (hargument 0 _ hs).of_series) (hargument 1)
        (hargument 2) now

/-- What a call answers to sound arguments is sound. -/
theorem Run.callResult_sound {setting : Setting} {function : String}
    {arguments : List (Option Value)} (h : ∀ a ∈ arguments, Value.Sound P granted a) {v : Value}
    (hv : callResult setting function arguments = .ok v) : Value.Sound P granted (some v) := by
  unfold callResult at hv
  split at hv
  · unfold EntityKind.construct at hv
    split at hv
    · cases hv
      exact .entity _
    · cases hv
  · split at hv
    · exact Builtin.apply_sound hP h hv
    · cases hv

end Builtins

/-! ## Properties -/

/-- A property of a sound value that is no handle is sound. -/
theorem Run.plainProperty_sound {P : Series → Prop} {granted : Prop} {base v : Value}
    (h : Value.Sound P granted (some base)) {name : String}
    (hv : plainProperty base name = .ok v) : Value.Sound P granted (some v) := by
  cases base with
  | scalar x => cases hv
  | series s =>
      simp only [plainProperty] at hv
      split at hv <;> cases hv
      exact .scalar _
  | entity entity => cases hv
  | list items =>
      simp only [plainProperty] at hv
      split at hv
      · cases hv
        exact .scalar _
      · split at hv <;> cases hv
        rename_i item hitem
        obtain ⟨i, -, hget⟩ := Option.bind_eq_some_iff.mp hitem
        have hsound := h.of_item (List.mem_of_getElem? hget)
        cases item with
        | none => exact .scalar _
        | some v => exact hsound

end MetricScript
