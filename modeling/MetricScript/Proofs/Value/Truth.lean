import MetricScript.Builtin.Apply
import MetricScript.Proofs.Value.Combine

/-! # One notion of truth

Negation, logic and choice each find out for themselves whether an operand is true. They agree: each
is a matter of the truths of its operand, which are those of the points of a series and a single one
for anything else. -/

namespace MetricScript

/-! ## The truths of an operand -/

namespace Series

/-- The truth at each point. -/
def truths (s : Series) : List Bool :=
  s.values.map truthyPoint

end Series

namespace Value

/-- The truths that logic finds in an operand. What is missing counts as false. -/
def truths : Option Value → List Bool
  | some (.series s) => s.truths
  | operand => [operand.any truthy]

/-- One or zero for what a function makes of each truth of an operand: at the times of a series, at
the present moment for anything else. -/
def mapTruth (g : Bool → Bool) (operand : Option Value) (now : Timestamp) : Series :=
  match operand with
  | some (.series s) => s.mapValues fun x => some (indicator (g (truthyPoint x)))
  | operand => .single now (some (indicator (g (operand.any truthy))))

end Value

@[simp] theorem truthyPoint_indicator (b : Bool) : truthyPoint (some (indicator b)) = b := by
  cases b <;> decide

theorem indicator_injective {a b : Bool} (h : indicator a = indicator b) : a = b := by
  rw [← truthyPoint_indicator a, h, truthyPoint_indicator]

namespace Value

variable {operand : Option Value}

/-- An operand is a series or has a single truth. -/
theorem eq_series_or_not (operand : Option Value) :
    (∃ s, operand = some (.series s)) ∨ operand.bind series? = none := by
  rcases operand with _ | (_ | s | _ | _)
  case some.series => exact Or.inl ⟨s, rfl⟩
  all_goals exact Or.inr rfl

theorem mapTruth_of_not_series (h : operand.bind series? = none) (g : Bool → Bool)
    (now : Timestamp) :
    mapTruth g operand now = .single now (some (indicator (g (operand.any truthy)))) := by
  rcases operand with _ | (_ | s | _ | _)
  case some.series => cases h
  all_goals rfl

theorem truths_of_not_series (h : operand.bind series? = none) :
    truths operand = [operand.any truthy] := by
  rcases operand with _ | (_ | s | _ | _)
  case some.series => cases h
  all_goals rfl

@[simp] theorem times_mapTruth_series (g : Bool → Bool) (s : Series) (now : Timestamp) :
    (mapTruth g (some (.series s)) now).times = s.times :=
  s.times_mapValues _

@[simp] theorem truths_mapTruth (g : Bool → Bool) (operand : Option Value) (now : Timestamp) :
    (mapTruth g operand now).truths = (truths operand).map g := by
  obtain ⟨s, rfl⟩ | h := eq_series_or_not operand
  · simp [mapTruth, truths, Series.truths, Series.values_mapValues, Function.comp_def]
  · simp [mapTruth_of_not_series h, truths_of_not_series h, Series.truths, Series.values,
      Series.single]

/-- Two functions make the same of an operand if they agree on its truths, and only then. -/
theorem mapTruth_eq_iff (g h : Bool → Bool) (operand : Option Value) (now : Timestamp) :
    mapTruth g operand now = mapTruth h operand now ↔
      ∀ truth ∈ truths operand, g truth = h truth := by
  constructor
  · intro heq
    have htruths := congrArg Series.truths heq
    rw [truths_mapTruth, truths_mapTruth] at htruths
    exact List.map_inj_left.mp htruths
  · intro hagree
    obtain ⟨s, rfl⟩ | hnone := eq_series_or_not operand
    · refine congrArg Series.mk (List.map_congr_left fun p hp => ?_)
      have hpoint : g (truthyPoint p.value) = h (truthyPoint p.value) :=
        hagree _ (List.mem_map_of_mem (List.mem_map_of_mem hp))
      simp only [hpoint]
    · rw [mapTruth_of_not_series hnone, mapTruth_of_not_series hnone,
        hagree _ (by simp [truths_of_not_series hnone])]

end Value

/-! ## Negation and logic -/

theorem Value.negate_eq_mapTruth (operand : Option Value) (now : Timestamp) :
    negate operand now = mapTruth (!·) operand now := by
  rcases operand with _ | (_ | _ | _ | _) <;> rfl

theorem Reading.logical_of_not_series {operand : Option Value}
    (h : operand.bind Value.series? = none) :
    ∃ x, logical operand = .constant x ∧ truthyPoint x = operand.any Value.truthy := by
  rcases operand with _ | (_ | s | _ | _)
  case some.series => cases h
  case none => exact ⟨none, rfl, rfl⟩
  all_goals exact ⟨_, rfl, truthyPoint_indicator _⟩

namespace Operator

variable {constant : Option Value} (f : Bool → Bool → Bool)

/-- Logic with an operand that is no series is a matter of the truths of the other operand. -/
theorem decideBoth_of_not_series (h : constant.bind Value.series? = none) (operand : Option Value)
    (now : Timestamp) :
    decideBoth f constant operand now =
      Value.mapTruth (f (constant.any Value.truthy)) operand now := by
  obtain ⟨x, hx, htruth⟩ := Reading.logical_of_not_series h
  obtain ⟨s, rfl⟩ | hnone := Value.eq_series_or_not operand
  · rw [decideBoth, hx, ← htruth]
    rfl
  · obtain ⟨y, hy, hother⟩ := Reading.logical_of_not_series hnone
    rw [decideBoth, hx, hy, Value.mapTruth_of_not_series hnone, ← htruth, ← hother]
    rfl

/-- Two such operands are as good as each other where the other operand leaves no room for a
difference. -/
theorem decideBoth_eq_iff {constant' : Option Value} (h : constant.bind Value.series? = none)
    (h' : constant'.bind Value.series? = none) (operand : Option Value) (now : Timestamp) :
    decideBoth f constant operand now = decideBoth f constant' operand now ↔
      ∀ truth ∈ Value.truths operand,
        f (constant.any Value.truthy) truth = f (constant'.any Value.truthy) truth := by
  rw [decideBoth_of_not_series f h, decideBoth_of_not_series f h', Value.mapTruth_eq_iff]

theorem decideBoth_swap (left right : Option Value) (now : Timestamp) :
    decideBoth f left right now = decideBoth (fun y x => f x y) right left now :=
  Reading.combine_swap _ now _ _

theorem and_true_eq_mapTruth (operand : Option Value) (now : Timestamp) :
    and.apply operand (some (.scalar (.bool true))) now = Value.mapTruth id operand now := by
  rw [apply, decideBoth_swap, decideBoth_of_not_series _ rfl]
  exact (Value.mapTruth_eq_iff _ _ operand now).mpr fun truth _ => Bool.and_true truth

theorem or_false_eq_mapTruth (operand : Option Value) (now : Timestamp) :
    or.apply operand (some (.scalar (.bool false))) now = Value.mapTruth id operand now := by
  rw [apply, decideBoth_swap, decideBoth_of_not_series _ rfl]
  exact (Value.mapTruth_eq_iff _ _ operand now).mpr fun truth _ => Bool.or_false truth

end Operator

/-! ## Choice -/

namespace Builtin

theorem select_of_not_series {condition : Option Value}
    (h : condition.bind Value.series? = none) (thenBranch elseBranch : Option Value)
    (now : Timestamp) :
    select condition thenBranch elseBranch now =
      wholeBranch (if condition.any Value.truthy then thenBranch else elseBranch) now := by
  rcases condition with _ | (_ | s | _ | _)
  case some.series => cases h
  all_goals rfl

/-- A choice by a series is a matter of its truths alone. -/
theorem select_mapTruth (condition : Series) (thenBranch elseBranch : Option Value)
    (now : Timestamp) :
    select (some (.series (Value.mapTruth id (some (.series condition)) now))) thenBranch elseBranch
        now =
      select (some (.series condition)) thenBranch elseBranch now := by
  simp only [select, Value.mapTruth, Series.mapIdx_mapValues, truthyPoint_indicator, id]

end Builtin

/-! ## They agree -/

namespace Value

/-- For an operand that is no series there is one truth that negation turns round, that logic with a
neutral operand gives back, and by which a choice is made. A series has a truth at each of its
points: negation and logic keep its times, turn round its truths or give them back, and a choice by
the series is the same as one by its truths. -/
theorem one_notion_of_truth :
    (∀ operand : Option Value, operand.bind series? = none → ∃ truth : Bool,
      (∀ now, negate operand now = .single now (some (indicator !truth))) ∧
      (∀ now, Operator.and.apply operand (some (.scalar (.bool true))) now =
        .single now (some (indicator truth))) ∧
      (∀ now, Operator.or.apply operand (some (.scalar (.bool false))) now =
        .single now (some (indicator truth))) ∧
      ∀ thenBranch elseBranch now,
        Builtin.select operand thenBranch elseBranch now =
          Builtin.select (some (.scalar (.bool truth))) thenBranch elseBranch now) ∧
    ∀ (s : Series) (now : Timestamp),
      let no := negate (some (.series s)) now
      let yes := Operator.and.apply (some (.series s)) (some (.scalar (.bool true))) now
      let either := Operator.or.apply (some (.series s)) (some (.scalar (.bool false))) now
      (no.times = s.times ∧ no.truths = s.truths.map (!·)) ∧
      (yes.times = s.times ∧ yes.truths = s.truths) ∧
      (either.times = s.times ∧ either.truths = s.truths) ∧
      ∀ thenBranch elseBranch,
        Builtin.select (some (.series s)) thenBranch elseBranch now =
          Builtin.select (some (.series yes)) thenBranch elseBranch now := by
  constructor
  · intro operand h
    refine ⟨operand.any truthy, ?_, ?_, ?_, ?_⟩
    · intro now
      rw [negate_eq_mapTruth, mapTruth_of_not_series h]
    · intro now
      rw [Operator.and_true_eq_mapTruth, mapTruth_of_not_series h, id]
    · intro now
      rw [Operator.or_false_eq_mapTruth, mapTruth_of_not_series h, id]
    · intro thenBranch elseBranch now
      rw [Builtin.select_of_not_series h, Builtin.select_of_not_series rfl]
      rfl
  · intro s now
    dsimp only
    rw [negate_eq_mapTruth, Operator.and_true_eq_mapTruth, Operator.or_false_eq_mapTruth]
    refine ⟨?_, ?_, ?_, ?_⟩
    · exact ⟨times_mapTruth_series _ s now, truths_mapTruth _ _ now⟩
    · exact ⟨times_mapTruth_series _ s now, by simp [truths]⟩
    · exact ⟨times_mapTruth_series _ s now, by simp [truths]⟩
    · intro thenBranch elseBranch
      exact (Builtin.select_mapTruth s thenBranch elseBranch now).symm

/-- The one truth of a handle. -/
theorem one_notion_of_truth_handle :
    Option.bind (some (.entity ⟨.chain, "x"⟩)) series? = none ∧ ∃ truth : Bool,
      (∀ now, negate (some (.entity ⟨.chain, "x"⟩)) now = .single now (some (indicator !truth))) ∧
      (∀ now, Operator.and.apply (some (.entity ⟨.chain, "x"⟩)) (some (.scalar (.bool true))) now =
        .single now (some (indicator truth))) ∧
      (∀ now, Operator.or.apply (some (.entity ⟨.chain, "x"⟩)) (some (.scalar (.bool false))) now =
        .single now (some (indicator truth))) ∧
      ∀ thenBranch elseBranch now,
        Builtin.select (some (.entity ⟨.chain, "x"⟩)) thenBranch elseBranch now =
          Builtin.select (some (.scalar (.bool truth))) thenBranch elseBranch now :=
  ⟨rfl, one_notion_of_truth.1 (some (.entity ⟨.chain, "x"⟩)) rfl⟩

end Value

end MetricScript
