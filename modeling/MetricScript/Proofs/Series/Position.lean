import MetricScript.Series.Transform

/-! # Positions within a series

Averages and differences look back from a position by a number of points. Counted in natural
numbers, such a look back could fall before the first point, and a stretch of values could end
behind the last one. Here both are checked, as they are wherever positions are machine words: a
check that fails leaves nothing. It turns out that none fails, whatever the series and the window. -/

namespace MetricScript.Series

/-! ## Checks -/

/-- The position so many points before, if that is not before the first one. -/
def back? (i n : Nat) : Option Nat :=
  if n ≤ i then some (i - n) else none

/-- The values from a position to another one, both included, if both are there; they may be none at
all, if the first position comes right after the last. -/
def stretch? {α : Type} (values : List α) (first last : Nat) : Option (List α) :=
  if first ≤ last + 1 ∧ last < values.length then
    some ((values.drop first).take (last + 1 - first))
  else none

/-- Replaces every value, given its position, unless that fails somewhere. -/
def mapPoints? (f : Nat → Option Float → Option (Option Float)) :
    List Point → Option (List Point)
  | [] => some []
  | p :: rest => do
    let x ← f 0 p.value
    let points ← mapPoints? (fun i => f (i + 1)) rest
    some (⟨p.time, x⟩ :: points)

def mapIdx? (f : Nat → Option Float → Option (Option Float)) (s : Series) : Option Series :=
  (mapPoints? f s.points).map Series.mk

theorem mapPoints?_eq {f : Nat → Option Float → Option (Option Float)}
    {g : Nat → Option Float → Option Float} {points : List Point}
    (h : ∀ i x, i < points.length → f i x = some (g i x)) :
    mapPoints? f points = some (points.mapIdx fun i p => ⟨p.time, g i p.value⟩) := by
  induction points generalizing f g with
  | nil => rfl
  | cons p rest ih =>
      have hfirst : f 0 p.value = some (g 0 p.value) := h 0 p.value (Nat.succ_pos _)
      -- The rest is a series of its own, in which every position counts one less.
      have hrest := ih (f := fun i => f (i + 1)) (g := fun i => g (i + 1)) fun i x hi =>
        h (i + 1) x (Nat.succ_lt_succ hi)
      rw [mapPoints?, hfirst, hrest, List.mapIdx_cons]
      rfl

/-- What succeeds at every position of a series succeeds for the series. -/
theorem mapIdx?_eq {f : Nat → Option Float → Option (Option Float)}
    {g : Nat → Option Float → Option Float} {s : Series}
    (h : ∀ i x, i < s.length → f i x = some (g i x)) : s.mapIdx? f = some (s.mapIdx g) := by
  rw [mapIdx?, mapPoints?_eq h]
  rfl

/-! ## Averages -/

/-- The average at a position, if there is one; the outer option is for the checks. -/
def averageAt? (values : List (Option Float)) (window i : Nat) : Option (Option Float) :=
  if window = 0 || i + 1 < window then some none
  else do
    let first ← back? (i + 1) window
    let stretch ← stretch? values first i
    some (some (sum stretch / window.toUInt64.toFloat))

/-- Trailing simple average with all positions checked. -/
def movingAverage? (window : Nat) (s : Series) : Option Series :=
  s.mapIdx? fun i _ => averageAt? s.values window i

/-- From a position at which the window is full it begins at the first point or behind it, and it
ends before the end of the series. -/
theorem stretch?_of_full {values : List (Option Float)} {window i : Nat} (hi : i < values.length)
    (hfull : window ≤ i + 1) :
    back? (i + 1) window = some (i + 1 - window) ∧
      stretch? values (i + 1 - window) i =
        some ((values.drop (i + 1 - window)).take window) := by
  have hlength : i + 1 - (i + 1 - window) = window := Nat.sub_sub_self hfull
  constructor
  · rw [back?, if_pos hfull]
  · rw [stretch?, if_pos ⟨Nat.sub_le _ _, hi⟩, hlength]

theorem averageAt?_eq {values : List (Option Float)} {i : Nat} (hi : i < values.length)
    (window : Nat) :
    averageAt? values window i =
      some ((trailing? values window i).map fun values =>
        sum values / window.toUInt64.toFloat) := by
  unfold averageAt? trailing?
  split
  · rfl
  · rename_i hfull
    simp only [Bool.or_eq_true, decide_eq_true_eq, not_or, Nat.not_lt] at hfull
    obtain ⟨hback, hstretch⟩ := stretch?_of_full hi hfull.2
    rw [hback]
    change (stretch? values (i + 1 - window) i).bind _ = _
    rw [hstretch]
    rfl

/-- No check fails in a moving average. -/
theorem movingAverage?_eq (window : Nat) (s : Series) :
    s.movingAverage? window = some (s.movingAverage window) :=
  mapIdx?_eq fun i _ hi => averageAt?_eq (by simpa [values, length] using hi) window

/-! ## Steps from the point before -/

/-- The combination of a value with the one before it; the outer option is for the checks. -/
def stepAt? (f : (previous current : Float) → Float) (values : List (Option Float)) (i : Nat)
    (x : Option Float) : Option (Option Float) :=
  if i = 0 then some none
  else do
    let before ← back? i 1
    let previous ← values[before]?
    some (some (f (orZero previous) (orZero x)))

/-- Combines every value with the one before it, all positions checked. -/
def stepwise? (f : (previous current : Float) → Float) (s : Series) : Option Series :=
  s.mapIdx? fun i x => stepAt? f s.values i x

theorem stepAt?_eq (f : (previous current : Float) → Float) {s : Series} {i : Nat}
    (hi : i < s.length) (x : Option Float) :
    stepAt? f s.values i x =
      some (if i = 0 then none else some (f (orZero (s.valueAt (i - 1))) (orZero x))) := by
  unfold stepAt?
  split
  · rfl
  · rename_i hne
    have hback : back? i 1 = some (i - 1) := if_pos (Nat.one_le_iff_ne_zero.mpr hne)
    have hbefore : i - 1 < s.points.length := Nat.lt_of_le_of_lt (Nat.sub_le i 1) hi
    rw [hback]
    simp [values, valueAt, hbefore]

/-- Combining every value with the one before it, written by positions. -/
theorem stepwise_eq_mapIdx (f : (previous current : Float) → Float) (s : Series) :
    s.stepwise f = s.mapIdx fun i x =>
      if i = 0 then none else some (f (orZero (s.valueAt (i - 1))) (orZero x)) := by
  obtain ⟨points⟩ := s
  cases points with
  | nil => rfl
  | cons first rest =>
      refine congrArg Series.mk (List.ext_getElem (by simp) fun i hi _ => ?_)
      cases i with
      | zero => simp
      | succ i =>
          have hi' : i < rest.length := by simpa using hi
          have hbefore : i < (first :: rest).length := Nat.lt_succ_of_lt hi'
          simp [valueAt, List.getElem?_eq_getElem hbefore]

/-- No check fails in a difference or a change. -/
theorem stepwise?_eq (f : (previous current : Float) → Float) (s : Series) :
    s.stepwise? f = some (s.stepwise f) := by
  rw [stepwise_eq_mapIdx]
  exact mapIdx?_eq fun i x hi => stepAt?_eq f hi x

end MetricScript.Series
