/-!
Time series: points in strictly increasing order of time. `Series.ofPoints` brings any list of
points into that form, `align` combines two series on the union of their times.
-/

namespace MetricScript

/-- Seconds since the epoch. -/
abbrev Timestamp := Int

/-- One observation; without a value the point marks a time at which there is no data. -/
structure Point where
  time : Timestamp
  value : Option Float

/-- A series of observations, in order of time. -/
structure Series where
  points : List Point
  deriving Inhabited

namespace Series

/-- The times strictly increase, so no time occurs twice. Every operation of the library gives such
series when it is given such series. -/
def Increasing (s : Series) : Prop :=
  s.points.Pairwise fun p q => p.time < q.time

def empty : Series := ⟨[]⟩

/-- Puts a point into a list in increasing order of time, unless there is one at its time. -/
def insertPoint (p : Point) : List Point → List Point
  | [] => [p]
  | q :: rest =>
    if p.time < q.time then p :: q :: rest
    else if q.time < p.time then q :: insertPoint p rest
    else q :: rest

/-- The series with the given observations, in any order; of several at one time the last given one
counts. Points are put in from the last to the first, which takes one step each if they are given in
order of time. -/
def ofPoints (points : List Point) : Series :=
  ⟨points.foldr insertPoint []⟩

def single (time : Timestamp) (value : Option Float) : Series :=
  ⟨[⟨time, value⟩]⟩

def length (s : Series) : Nat := s.points.length

def isEmpty (s : Series) : Bool := s.points.isEmpty

def times (s : Series) : List Timestamp := s.points.map Point.time

def values (s : Series) : List (Option Float) := s.points.map Point.value

/-- Replaces every value and keeps the times. -/
def mapValues (f : Option Float → Option Float) (s : Series) : Series :=
  ⟨s.points.map fun p => ⟨p.time, f p.value⟩⟩

/-- Replaces every value, given its position, and keeps the times. -/
def mapIdx (f : Nat → Option Float → Option Float) (s : Series) : Series :=
  ⟨s.points.mapIdx fun i p => ⟨p.time, f i p.value⟩⟩

@[simp] theorem times_mapValues (f : Option Float → Option Float) (s : Series) :
    (s.mapValues f).times = s.times := by
  simp [mapValues, times]

@[simp] theorem times_mapIdx (f : Nat → Option Float → Option Float) (s : Series) :
    (s.mapIdx f).times = s.times := by
  apply List.ext_getElem <;> simp [mapIdx, times]

/-- The value at a position; none also behind the end. -/
def valueAt (s : Series) (i : Nat) : Option Float :=
  s.points[i]?.bind Point.value

/-- The value at a time; the outer option says whether there is a point at all. -/
def find? (s : Series) (t : Timestamp) : Option (Option Float) :=
  (s.points.find? fun p => p.time = t).map Point.value

/-- Combines two lists of points on the union of their times. Where one of them has no point, zero
stands in. -/
def alignPoints (f : Option Float → Option Float → Option Float) :
    List Point → List Point → List Point
  | [], right => right.map fun q => ⟨q.time, f (some 0) q.value⟩
  | left, [] => left.map fun p => ⟨p.time, f p.value (some 0)⟩
  | p :: left, q :: right =>
    if p.time < q.time then
      ⟨p.time, f p.value (some 0)⟩ :: alignPoints f left (q :: right)
    else if q.time < p.time then
      ⟨q.time, f (some 0) q.value⟩ :: alignPoints f (p :: left) right
    else
      ⟨p.time, f p.value q.value⟩ :: alignPoints f left right
termination_by left right => left.length + right.length

/-- Combines two series on the union of their times; zero stands in for a point that one of them
lacks. -/
def align (f : Option Float → Option Float → Option Float) (left right : Series) : Series :=
  ⟨alignPoints f left.points right.points⟩

end Series

end MetricScript
