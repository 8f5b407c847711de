import MetricScript.Value.Pointwise

/-! # Combining, exchanged and after a replacement

What two operands give is made point by point, and where one of them lacks a point a fixed value
stands in for it. So it does not matter which of the two comes first, if the combination is turned
round as well, and a replacement of values can be left to the combination, before it or after it.
None of this needs the points to be in order. -/

namespace MetricScript

namespace Series

theorem values_mapValues (g : Option Float → Option Float) (s : Series) :
    (s.mapValues g).values = s.values.map g := by
  simp [mapValues, values, Function.comp_def]

theorem mapValues_mapValues (g h : Option Float → Option Float) (s : Series) :
    (s.mapValues h).mapValues g = s.mapValues fun x => g (h x) := by
  simp [mapValues, Function.comp_def]

theorem mapIdx_mapValues (g : Nat → Option Float → Option Float) (h : Option Float → Option Float)
    (s : Series) : (s.mapValues h).mapIdx g = s.mapIdx fun i x => g i (h x) := by
  refine congrArg mk (List.ext_getElem ?_ ?_)
  · simp [mapValues]
  · intro i _ _
    simp [mapValues]

/-! ## Two series exchanged -/

variable (f : Option Float → Option Float → Option Float)

theorem alignPoints_nil_right (left : List Point) :
    alignPoints f left [] = left.map fun p => ⟨p.time, f p.value (some 0)⟩ := by
  cases left <;> simp [alignPoints]

theorem alignPoints_swap (left right : List Point) :
    alignPoints f left right = alignPoints (fun y x => f x y) right left := by
  fun_induction alignPoints f left right with
  | case1 right => rw [alignPoints_nil_right]
  | case2 left => rw [alignPoints]
  | case3 p left q right hlt ih =>
      rw [alignPoints, if_neg (Int.not_lt.mpr (Int.le_of_lt hlt)), if_pos hlt, ih]
  | case4 p left q right hlt hgt ih => rw [alignPoints, if_pos hgt, ih]
  | case5 p left q right hlt hgt ih =>
      have htime : p.time = q.time := Int.le_antisymm (Int.not_lt.mp hgt) (Int.not_lt.mp hlt)
      rw [alignPoints, if_neg hgt, if_neg hlt, ih, htime]

theorem align_swap (s t : Series) : s.align f t = t.align (fun y x => f x y) s :=
  congrArg mk (alignPoints_swap f s.points t.points)

/-! ## Values replaced -/

theorem map_alignPoints (g : Option Float → Option Float) (left right : List Point) :
    ((alignPoints f left right).map fun p => (⟨p.time, g p.value⟩ : Point)) =
      alignPoints (fun x y => g (f x y)) left right := by
  fun_induction alignPoints f left right with
  | case1 right => simp [alignPoints]
  | case2 left => simp [alignPoints_nil_right]
  | case3 p left q right hlt ih => rw [alignPoints, if_pos hlt, List.map_cons, ih]
  | case4 p left q right hlt hgt ih =>
      rw [alignPoints, if_neg hlt, if_pos hgt, List.map_cons, ih]
  | case5 p left q right hlt hgt ih =>
      rw [alignPoints, if_neg hlt, if_neg hgt, List.map_cons, ih]

theorem mapValues_align (g : Option Float → Option Float) (s t : Series) :
    (s.align f t).mapValues g = s.align (fun x y => g (f x y)) t :=
  congrArg mk (map_alignPoints f g s.points t.points)

/-- The zero that stands in for a missing point must be left alone, since it is not replaced. -/
theorem alignPoints_map_left {g : Option Float → Option Float} (hg : g (some 0) = some 0)
    (left right : List Point) :
    alignPoints f (left.map fun p => ⟨p.time, g p.value⟩) right =
      alignPoints (fun x y => f (g x) y) left right := by
  fun_induction alignPoints (fun x y => f (g x) y) left right with
  | case1 right => rw [List.map_nil, alignPoints, hg]
  | case2 left => simp [alignPoints_nil_right]
  | case3 p left q right hlt ih => rw [List.map_cons, alignPoints, if_pos hlt, ← ih]
  | case4 p left q right hlt hgt ih =>
      rw [List.map_cons, alignPoints, if_neg hlt, if_pos hgt, ← ih, hg, List.map_cons]
  | case5 p left q right hlt hgt ih =>
      rw [List.map_cons, alignPoints, if_neg hlt, if_neg hgt, ← ih]

theorem mapValues_align_left {g : Option Float → Option Float} (hg : g (some 0) = some 0)
    (s t : Series) : (s.mapValues g).align f t = s.align (fun x y => f (g x) y) t :=
  congrArg mk (alignPoints_map_left f hg s.points t.points)

end Series

/-! ## Operands of any kind -/

namespace Reading

variable (f : Option Float → Option Float → Option Float) (now : Timestamp)

theorem combine_swap (a b : Reading) :
    combine f now a b = combine (fun y x => f x y) now b a := by
  cases a with
  | series s =>
      cases b with
      | series t => exact Series.align_swap f s t
      | constant y => rfl
  | constant x => cases b <;> rfl

theorem mapValues_combine (g : Option Float → Option Float) (a b : Reading) :
    (combine f now a b).mapValues g = combine (fun x y => g (f x y)) now a b := by
  cases a with
  | series s =>
      cases b with
      | series t => exact Series.mapValues_align f g s t
      | constant y => exact Series.mapValues_mapValues g _ s
  | constant x =>
      cases b with
      | series t => exact Series.mapValues_mapValues g _ t
      | constant y => rfl

theorem combine_mapValues_left {g : Option Float → Option Float} (hg : g (some 0) = some 0)
    (s : Series) (b : Reading) :
    combine f now (.series (s.mapValues g)) b =
      combine (fun x y => f (g x) y) now (.series s) b := by
  cases b with
  | series t => exact Series.mapValues_align_left f hg s t
  | constant y => exact Series.mapValues_mapValues (fun x => f x y) g s

theorem combine_mapValues_right {g : Option Float → Option Float} (hg : g (some 0) = some 0)
    (a : Reading) (t : Series) :
    combine f now a (.series (t.mapValues g)) =
      combine (fun x y => f x (g y)) now a (.series t) := by
  rw [combine_swap, combine_mapValues_left _ now hg, combine_swap]

end Reading

end MetricScript
