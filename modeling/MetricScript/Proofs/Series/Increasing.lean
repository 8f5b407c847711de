import MetricScript.Series.Json
import MetricScript.Series.Transform

/-! # Series in order of time

Every way to make a series gives increasing times: bringing points into order, combining two series
on the union of their times, and every transform, since a transform keeps the times. -/

namespace MetricScript.Series

theorem increasing_iff_times (s : Series) : s.Increasing ↔ s.times.Pairwise (· < ·) :=
  List.pairwise_map.symm

theorem increasing_empty : empty.Increasing := List.Pairwise.nil

theorem increasing_single (time : Timestamp) (value : Option Float) :
    (single time value).Increasing := List.pairwise_singleton _ _

/-- Being in order is a matter of the times alone. -/
theorem Increasing.of_times {s t : Series} (hs : s.Increasing) (h : t.times = s.times) :
    t.Increasing := by
  rw [increasing_iff_times] at hs ⊢
  rw [h]
  exact hs

/-! ## Points in any order -/

theorem time_mem_of_mem_insertPoint {p q : Point} {points : List Point}
    (h : q ∈ insertPoint p points) : q = p ∨ q ∈ points := by
  induction points with
  | nil => simpa [insertPoint] using h
  | cons r rest ih =>
      simp only [insertPoint] at h
      split at h
      · simpa using h
      · split at h
        · rcases List.mem_cons.mp h with rfl | h
          · exact Or.inr List.mem_cons_self
          · rcases ih h with rfl | h
            · exact Or.inl rfl
            · exact Or.inr (List.mem_cons_of_mem r h)
        · exact Or.inr h

theorem pairwise_insertPoint {p : Point} {points : List Point}
    (h : points.Pairwise fun p q => p.time < q.time) :
    (insertPoint p points).Pairwise fun p q => p.time < q.time := by
  induction points with
  | nil => simp [insertPoint]
  | cons q rest ih =>
      obtain ⟨hq, hrest⟩ := List.pairwise_cons.mp h
      simp only [insertPoint]
      split
      · rename_i hlt
        refine List.pairwise_cons.mpr ⟨fun r hr => ?_, h⟩
        rcases List.mem_cons.mp hr with rfl | hr
        · exact hlt
        · exact Int.lt_trans hlt (hq r hr)
      · split
        · rename_i hgt
          refine List.pairwise_cons.mpr ⟨fun r hr => ?_, ih hrest⟩
          rcases time_mem_of_mem_insertPoint hr with rfl | hr
          · exact hgt
          · exact hq r hr
        · exact h

/-- Points in any order, with repeated times or not, become a series in order. -/
theorem increasing_ofPoints (points : List Point) : (ofPoints points).Increasing := by
  change (points.foldr insertPoint []).Pairwise _
  induction points with
  | nil => exact List.Pairwise.nil
  | cons p rest ih => exact pairwise_insertPoint ih

/-- A series that was read is in order, whatever order it was written in. -/
theorem increasing_of_ofJson? {j : Json} {s : Series} (h : ofJson? j = some s) :
    s.Increasing := by
  unfold ofJson? at h
  split at h
  · obtain ⟨points, -, rfl⟩ := Option.map_eq_some_iff.mp h
    exact increasing_ofPoints points
  · cases h

/-! ## The union of two series -/

/-- A time of the union is a time of one of the two. -/
theorem time_mem_of_mem_alignPoints {f : Option Float → Option Float → Option Float}
    {left right : List Point} {r : Point} (h : r ∈ alignPoints f left right) :
    (∃ p ∈ left, p.time = r.time) ∨ ∃ q ∈ right, q.time = r.time := by
  fun_induction alignPoints f left right with
  | case1 right =>
      obtain ⟨q, hq, rfl⟩ := List.mem_map.mp h
      exact Or.inr ⟨q, hq, rfl⟩
  | case2 left =>
      obtain ⟨p, hp, rfl⟩ := List.mem_map.mp h
      exact Or.inl ⟨p, hp, rfl⟩
  | case3 p left q right hlt ih =>
      rcases List.mem_cons.mp h with rfl | h
      · exact Or.inl ⟨p, List.mem_cons_self, rfl⟩
      · exact (ih h).imp_left fun ⟨p', hp', ht⟩ => ⟨p', List.mem_cons_of_mem p hp', ht⟩
  | case4 p left q right hlt hgt ih =>
      rcases List.mem_cons.mp h with rfl | h
      · exact Or.inr ⟨q, List.mem_cons_self, rfl⟩
      · exact (ih h).imp_right fun ⟨q', hq', ht⟩ => ⟨q', List.mem_cons_of_mem q hq', ht⟩
  | case5 p left q right hlt hgt ih =>
      rcases List.mem_cons.mp h with rfl | h
      · exact Or.inl ⟨p, List.mem_cons_self, rfl⟩
      · exact (ih h).imp (fun ⟨p', hp', ht⟩ => ⟨p', List.mem_cons_of_mem p hp', ht⟩)
          fun ⟨q', hq', ht⟩ => ⟨q', List.mem_cons_of_mem q hq', ht⟩

theorem pairwise_alignPoints {f : Option Float → Option Float → Option Float}
    {left right : List Point} (hleft : left.Pairwise fun p q => p.time < q.time)
    (hright : right.Pairwise fun p q => p.time < q.time) :
    (alignPoints f left right).Pairwise fun p q => p.time < q.time := by
  fun_induction alignPoints f left right with
  | case1 right => exact List.pairwise_map.mpr hright
  | case2 left => exact List.pairwise_map.mpr hleft
  | case3 p left q right hlt ih =>
      obtain ⟨hp, hrest⟩ := List.pairwise_cons.mp hleft
      refine List.pairwise_cons.mpr ⟨fun r hr => ?_, ih hrest hright⟩
      rcases time_mem_of_mem_alignPoints hr with ⟨p', hp', ht⟩ | ⟨q', hq', ht⟩
      · exact ht ▸ hp p' hp'
      · rcases List.mem_cons.mp hq' with rfl | hq'
        · exact ht ▸ hlt
        · exact ht ▸ Int.lt_trans hlt ((List.pairwise_cons.mp hright).1 q' hq')
  | case4 p left q right hlt hgt ih =>
      obtain ⟨hq, hrest⟩ := List.pairwise_cons.mp hright
      refine List.pairwise_cons.mpr ⟨fun r hr => ?_, ih hleft hrest⟩
      rcases time_mem_of_mem_alignPoints hr with ⟨p', hp', ht⟩ | ⟨q', hq', ht⟩
      · rcases List.mem_cons.mp hp' with rfl | hp'
        · exact ht ▸ hgt
        · exact ht ▸ Int.lt_trans hgt ((List.pairwise_cons.mp hleft).1 p' hp')
      · exact ht ▸ hq q' hq'
  | case5 p left q right hlt hgt ih =>
      obtain ⟨hp, hleft'⟩ := List.pairwise_cons.mp hleft
      obtain ⟨hq, hright'⟩ := List.pairwise_cons.mp hright
      have htime : p.time = q.time := Int.le_antisymm (Int.not_lt.mp hgt) (Int.not_lt.mp hlt)
      refine List.pairwise_cons.mpr ⟨fun r hr => ?_, ih hleft' hright'⟩
      rcases time_mem_of_mem_alignPoints hr with ⟨p', hp', ht⟩ | ⟨q', hq', ht⟩
      · exact ht ▸ hp p' hp'
      · exact ht ▸ htime ▸ hq q' hq'

theorem Increasing.align {s t : Series} (hs : s.Increasing) (ht : t.Increasing)
    (f : Option Float → Option Float → Option Float) : (s.align f t).Increasing :=
  pairwise_alignPoints hs ht

/-! ## Transforms keep the times -/

@[simp] theorem times_movingAverage (window : Nat) (s : Series) :
    (s.movingAverage window).times = s.times :=
  times_mapIdx _ s

theorem map_time_averageFrom (alpha : Float) (previous : Option Float) (points : List Point) :
    (averageFrom alpha previous points).map Point.time = points.map Point.time := by
  induction points generalizing previous with
  | nil => rfl
  | cons p rest ih => simp only [averageFrom, List.map_cons, ih]

@[simp] theorem times_exponentialAverage (window : Nat) (s : Series) :
    (s.exponentialAverage window).times = s.times := by
  obtain ⟨points⟩ := s
  cases points with
  | nil => rfl
  | cons p rest =>
      simp only [exponentialAverage, times, List.map_cons, map_time_averageFrom]

theorem map_time_zipWith {f : Point → Point → Option Float} (p : Point) (rest : List Point) :
    (List.zipWith (fun p q => (⟨q.time, f p q⟩ : Point)) (p :: rest) rest).map Point.time =
      rest.map Point.time := by
  induction rest generalizing p with
  | nil => rfl
  | cons q rest ih => simp only [List.zipWith_cons_cons, List.map_cons, ih]

@[simp] theorem times_stepwise (f : Float → Float → Float) (s : Series) :
    (s.stepwise f).times = s.times := by
  obtain ⟨points⟩ := s
  cases points with
  | nil => rfl
  | cons p rest => simp only [stepwise, times, List.map_cons, map_time_zipWith]

@[simp] theorem times_absolute (s : Series) : s.absolute.times = s.times :=
  times_mapValues _ s

end MetricScript.Series
