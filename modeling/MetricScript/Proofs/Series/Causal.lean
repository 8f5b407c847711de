import MetricScript.Builtin.Apply
import MetricScript.Proofs.Series.Increasing
import MetricScript.Proofs.Series.Position

/-! # Nothing depends on what comes later

Averages, differences and choices look back only. From the first points of a series they give the
first points of what they give from the whole, so points added behind the last one leave alone what
is there already. -/

namespace MetricScript

/-! ## The first points of a series -/

namespace Series

/-- The series of the first points. -/
def take (s : Series) (n : Nat) : Series :=
  ⟨s.points.take n⟩

theorem valueAt_take {s : Series} {n i : Nat} (h : i < n) :
    (s.take n).valueAt i = s.valueAt i := by
  simp [valueAt, take, List.getElem?_take_of_lt h]

theorem getElem?_values (s : Series) (i : Nat) :
    s.values[i]? = s.points[i]?.map Point.value := by
  simp [values]

theorem valueAt_mapIdx {s : Series} {i : Nat} (h : i < s.length)
    (f : Nat → Option Float → Option Float) : (s.mapIdx f).valueAt i = f i (s.valueAt i) := by
  have hi : i < s.points.length := h
  simp [valueAt, mapIdx, hi]

/-- Replacing values by position commutes with taking the first points, if the two replacements
agree on these. -/
theorem mapIdx_take {f g : Nat → Option Float → Option Float} {s : Series} {n : Nat}
    (h : ∀ i x, i < n → i < s.length → f i x = g i x) :
    (s.take n).mapIdx f = (s.mapIdx g).take n := by
  refine congrArg Series.mk (List.ext_getElem ?_ ?_)
  · simp [take, mapIdx]
  · intro i hi _
    obtain ⟨hn, hlength⟩ : i < n ∧ i < s.points.length := by
      simpa [take, mapIdx, Nat.lt_min] using hi
    simp [take, mapIdx, h i _ hn hlength]

/-- A transform that keeps the times and looks back only. -/
structure Causal (f : Series → Series) : Prop where
  times_eq : ∀ s, (f s).times = s.times
  take_eq : ∀ s n, f (s.take n) = (f s).take n

/-- Points that are added later leave alone what there is. -/
theorem Causal.take_append {f : Series → Series} (hf : Causal f) (s : Series)
    (later : List Point) : (f ⟨s.points ++ later⟩).take s.length = f s := by
  have htake : take ⟨s.points ++ later⟩ s.length = s := by
    simp [take, length]
  rw [← hf.take_eq, htake]

/-! ## Averages -/

/-- The values of a window are all that it depends on. -/
theorem trailing?_congr {xs ys : List (Option Float)} {window i : Nat}
    (h : ∀ j, i + 1 - window ≤ j → j ≤ i → xs[j]? = ys[j]?) :
    trailing? xs window i = trailing? ys window i := by
  unfold trailing?
  split
  · rfl
  · rename_i hfull
    simp only [Bool.or_eq_true, decide_eq_true_eq, not_or, Nat.not_lt] at hfull
    refine congrArg some (List.ext_getElem? ?_)
    intro k
    by_cases hk : k < window
    · rw [List.getElem?_take_of_lt hk, List.getElem?_take_of_lt hk, List.getElem?_drop,
        List.getElem?_drop]
      exact h _ (by omega) (by omega)
    · rw [List.getElem?_take_eq_none (Nat.not_lt.mp hk),
        List.getElem?_take_eq_none (Nat.not_lt.mp hk)]

/-- A moving average depends on the values within its window only. -/
theorem valueAt_movingAverage_congr {s t : Series} {window i : Nat} (hs : i < s.length)
    (ht : i < t.length) (h : ∀ j, i + 1 - window ≤ j → j ≤ i → s.valueAt j = t.valueAt j) :
    (s.movingAverage window).valueAt i = (t.movingAverage window).valueAt i := by
  have hvalues : ∀ j, i + 1 - window ≤ j → j ≤ i → s.values[j]? = t.values[j]? := by
    intro j hfirst hlast
    have hjs : j < s.points.length := Nat.lt_of_le_of_lt hlast hs
    have hjt : j < t.points.length := Nat.lt_of_le_of_lt hlast ht
    have hj := h j hfirst hlast
    simp only [valueAt, List.getElem?_eq_getElem hjs, List.getElem?_eq_getElem hjt,
      Option.bind_some] at hj
    simp [getElem?_values, hjs, hjt, hj]
  rw [movingAverage, movingAverage, valueAt_mapIdx hs, valueAt_mapIdx ht,
    trailing?_congr hvalues]

theorem causal_movingAverage (window : Nat) : Causal (movingAverage window) where
  times_eq := times_movingAverage window
  take_eq s n := by
    refine mapIdx_take fun i _ hi _ => ?_
    have htrailing : trailing? (s.take n).values window i = trailing? s.values window i := by
      refine trailing?_congr fun j _ hj => ?_
      rw [getElem?_values, getElem?_values, take,
        List.getElem?_take_of_lt (Nat.lt_of_le_of_lt hj hi)]
    rw [htrailing]

theorem averageFrom_take (alpha : Float) (previous : Option Float) (points : List Point)
    (n : Nat) :
    averageFrom alpha previous (points.take n) = (averageFrom alpha previous points).take n := by
  induction points generalizing previous n with
  | nil => simp [averageFrom]
  | cons p rest ih =>
      cases n with
      | zero => rfl
      | succ n => simp only [List.take_succ_cons, averageFrom, ih]

theorem causal_exponentialAverage (window : Nat) : Causal (exponentialAverage window) where
  times_eq := times_exponentialAverage window
  take_eq s n := by
    obtain ⟨points⟩ := s
    cases points with
    | nil => simp [exponentialAverage, take]
    | cons first rest =>
        cases n with
        | zero => rfl
        | succ n => simp only [take, exponentialAverage, List.take_succ_cons, averageFrom_take]

/-! ## Differences and absolute values -/

theorem causal_stepwise (f : (previous current : Float) → Float) : Causal (stepwise f) where
  times_eq := times_stepwise f
  take_eq s n := by
    rw [stepwise_eq_mapIdx, stepwise_eq_mapIdx]
    refine mapIdx_take fun i x hi _ => ?_
    rw [valueAt_take (Nat.lt_of_le_of_lt (Nat.sub_le i 1) hi)]

theorem causal_absolute : Causal absolute where
  times_eq := times_absolute
  take_eq s n := by
    simp [absolute, mapValues, take, List.map_take]

end Series

/-! ## Choices -/

namespace Builtin

/-- A branch with no more than so many points, if it is a series. -/
def cutBranch (n : Nat) : Option Value → Option Value
  | some (.series s) => some (.series (s.take n))
  | branch => branch

theorem branchValue_cutBranch {n i : Nat} (h : i < n) (branch : Option Value) :
    branchValue (cutBranch n branch) i = branchValue branch i := by
  rcases branch with _ | (_ | s | _ | _)
  case some.series => exact Series.valueAt_take h
  all_goals rfl

/-- A choice by a series is made for each point by itself. It looks at no point of a branch behind
its own position, so it makes no difference whether these are cut off. -/
theorem select_take (condition : Series) (thenBranch elseBranch : Option Value)
    (cutThen cutElse : Bool) (n : Nat) (now : Timestamp) :
    ∃ chosen : Series, chosen.times = condition.times ∧
      select (some (.series condition)) thenBranch elseBranch now = .series chosen ∧
      select (some (.series (condition.take n)))
        (if cutThen then cutBranch n thenBranch else thenBranch)
        (if cutElse then cutBranch n elseBranch else elseBranch) now =
          .series (chosen.take n) := by
  have hcut (cut : Bool) (branch : Option Value) {i : Nat} (hi : i < n) :
      branchValue (if cut then cutBranch n branch else branch) i = branchValue branch i := by
    cases cut
    · rfl
    · exact branchValue_cutBranch hi branch
  refine ⟨_, Series.times_mapIdx _ condition, rfl, ?_⟩
  refine congrArg Value.series (Series.mapIdx_take fun i x hi _ => ?_)
  by_cases hx : truthyPoint x
  · simp only [hx, if_true, hcut cutThen thenBranch hi]
  · simp only [hx, Bool.false_eq_true, if_false, hcut cutElse elseBranch hi]

end Builtin

/-! ## What is charted stays -/

namespace Series

/-- Every transform keeps the times and looks back only, so that points added later change nothing
that is there; a moving average looks no further back than its window; and a choice by a series
keeps the times of the series and looks at the branches up to its own position only. -/
theorem history_unchanged :
    (∀ window, Causal (movingAverage window) ∧ Causal (exponentialAverage window)) ∧
    (Causal differences ∧ Causal absolute ∧ Causal percentChanges) ∧
    (∀ f, Causal f → ∀ (s : Series) (later : List Point),
      (f ⟨s.points ++ later⟩).take s.length = f s) ∧
    (∀ (window i : Nat) (s t : Series), i < s.length → i < t.length →
      (∀ j, i + 1 - window ≤ j → j ≤ i → s.valueAt j = t.valueAt j) →
      (s.movingAverage window).valueAt i = (t.movingAverage window).valueAt i) ∧
    ∀ (condition : Series) (thenBranch elseBranch : Option Value) (cutThen cutElse : Bool)
      (n : Nat) (now : Timestamp), ∃ chosen : Series, chosen.times = condition.times ∧
        Builtin.select (some (.series condition)) thenBranch elseBranch now = .series chosen ∧
        Builtin.select (some (.series (condition.take n)))
          (if cutThen then Builtin.cutBranch n thenBranch else thenBranch)
          (if cutElse then Builtin.cutBranch n elseBranch else elseBranch) now =
            .series (chosen.take n) := by
  refine ⟨fun window => ⟨causal_movingAverage window, causal_exponentialAverage window⟩,
    ⟨causal_stepwise _, causal_absolute, causal_stepwise _⟩, ?_, ?_, Builtin.select_take⟩
  · intro f hf s later
    exact hf.take_append s later
  · intro window i s t hs ht h
    exact valueAt_movingAverage_congr hs ht h

/-- Two series that agree on a window of two, with which one of them ends. -/
theorem history_unchanged_window :
    2 < length ⟨[⟨1, some 5⟩, ⟨2, none⟩, ⟨3, some 3⟩, ⟨4, some 4⟩]⟩ ∧
    2 < length ⟨[⟨1, some 9⟩, ⟨2, none⟩, ⟨3, some 3⟩]⟩ ∧
    (movingAverage 2 ⟨[⟨1, some 5⟩, ⟨2, none⟩, ⟨3, some 3⟩, ⟨4, some 4⟩]⟩).valueAt 2 =
      (movingAverage 2 ⟨[⟨1, some 9⟩, ⟨2, none⟩, ⟨3, some 3⟩]⟩).valueAt 2 ∧
    (movingAverage 2 ⟨[⟨1, some 9⟩, ⟨2, none⟩] ++ [⟨3, some 3⟩]⟩).take 2 =
      movingAverage 2 ⟨[⟨1, some 9⟩, ⟨2, none⟩]⟩ := by
  have hagree : ∀ j, 2 + 1 - 2 ≤ j → j ≤ 2 →
      valueAt ⟨[⟨1, some 5⟩, ⟨2, none⟩, ⟨3, some 3⟩, ⟨4, some 4⟩]⟩ j =
        valueAt ⟨[⟨1, some 9⟩, ⟨2, none⟩, ⟨3, some 3⟩]⟩ j := by
    intro j hfirst hlast
    obtain rfl | rfl : j = 1 ∨ j = 2 := by omega
    · simp [valueAt]
    · simp [valueAt]
  refine ⟨by decide, by decide, ?_, ?_⟩
  · exact history_unchanged.2.2.2.1 2 2 _ _ (by decide) (by decide) hagree
  · exact history_unchanged.2.2.1 _ (history_unchanged.1 2).1 ⟨[⟨1, some 9⟩, ⟨2, none⟩]⟩ _

end Series

end MetricScript
