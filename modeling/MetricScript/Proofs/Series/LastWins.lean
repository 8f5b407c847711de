import MetricScript.Proofs.Series.Lookup
import MetricScript.Series.Json

/-! # Series out of points in any order

Of the points given for one time the last counts. Points that are in order of time already are kept
as they are. -/

namespace MetricScript.Series

/-! ## The last point at a time -/

/-- The last of the points at a time. -/
def lastAt? (points : List Point) (time : Timestamp) : Option Point :=
  (points.filter fun p => p.time = time).getLast?

theorem lastAt?_cons (p : Point) (rest : List Point) (time : Timestamp) :
    lastAt? (p :: rest) time =
      (lastAt? rest time).or (if p.time = time then some p else none) := by
  unfold lastAt?
  by_cases h : p.time = time
  · rw [List.filter_cons_of_pos (by simpa using h), List.getLast?_cons, if_pos h]
    cases (rest.filter fun q => q.time = time).getLast? <;> rfl
  · rw [List.filter_cons_of_neg (by simpa using h), if_neg h, Option.or_none]

theorem time_of_lastAt? {points : List Point} {time : Timestamp} {p : Point}
    (h : lastAt? points time = some p) : p.time = time := by
  have hmem := List.mem_of_getLast? h
  simpa using List.of_mem_filter hmem

theorem isSome_lastAt?_iff (points : List Point) (time : Timestamp) :
    (lastAt? points time).isSome ↔ ∃ p ∈ points, p.time = time := by
  simp [lastAt?]

/-- Where each time occurs once, the last point at a time is the only one. -/
theorem lastAt?_of_increasing {s : Series} (hs : s.Increasing) (time : Timestamp) :
    (lastAt? s.points time).map Point.value = s.find? time := by
  obtain ⟨points⟩ := s
  change points.Pairwise (fun p q => p.time < q.time) at hs
  induction points with
  | nil => rfl
  | cons p rest ih =>
      obtain ⟨hp, hrest⟩ := List.pairwise_cons.mp hs
      rw [lastAt?_cons, find?_cons, ← ih hrest]
      by_cases h : p.time = time
      · -- A later point would have a later time.
        have hnone : lastAt? rest time = none := by
          rw [← Option.not_isSome_iff_eq_none, isSome_lastAt?_iff]
          rintro ⟨q, hq, htime⟩
          exact Int.ne_of_lt (hp q hq) (h.trans htime.symm)
        simp [h, hnone]
      · simp [h]

/-! ## Putting points in one by one -/

/-- A point that is put in counts where no other does. -/
theorem find?_insertPoint (p : Point) {points : List Point}
    (h : points.Pairwise fun p q => p.time < q.time) (time : Timestamp) :
    find? ⟨insertPoint p points⟩ time =
      (find? ⟨points⟩ time).or (if p.time = time then some p.value else none) := by
  induction points with
  | nil => simp [insertPoint, find?_cons]
  | cons q rest ih =>
      obtain ⟨hq, hrest⟩ := List.pairwise_cons.mp h
      unfold insertPoint
      split
      · rename_i hlt
        rw [find?_cons]
        by_cases hp : p.time = time
        · have hnone : find? ⟨q :: rest⟩ time = none := by
            refine find?_eq_none_of_lt fun r hr => ?_
            rcases List.mem_cons.mp hr with rfl | hr
            · exact hp ▸ hlt
            · exact hp ▸ Int.lt_trans hlt (hq r hr)
          simp [hp, hnone]
        · simp [hp]
      · split
        · rw [find?_cons, find?_cons, ih hrest]
          split <;> simp
        · have htime : p.time = q.time :=
            Int.le_antisymm (Int.not_lt.mp ‹_›) (Int.not_lt.mp ‹_›)
          rw [find?_cons, htime]
          split <;> simp

/-- What a series made of points has at a time is the value of the last of them. -/
theorem find?_ofPoints (points : List Point) (time : Timestamp) :
    (ofPoints points).find? time = (lastAt? points time).map Point.value := by
  induction points with
  | nil => rfl
  | cons p rest ih =>
      calc (ofPoints (p :: rest)).find? time
          = ((ofPoints rest).find? time).or (if p.time = time then some p.value else none) :=
            find?_insertPoint p (increasing_ofPoints rest) time
        _ = (lastAt? (p :: rest) time).map Point.value := by
            rw [ih, lastAt?_cons]
            cases lastAt? rest time <;> split <;> rfl

theorem mem_times_ofPoints (points : List Point) (time : Timestamp) :
    time ∈ (ofPoints points).times ↔ ∃ p ∈ points, p.time = time := by
  rw [mem_times_iff_find?, find?_ofPoints, Option.isSome_map, isSome_lastAt?_iff]

theorem mem_ofPoints (points : List Point) (p : Point) :
    p ∈ (ofPoints points).points ↔ lastAt? points p.time = some p := by
  rw [mem_points_iff_find? (increasing_ofPoints points), find?_ofPoints]
  constructor
  · intro h
    obtain ⟨q, hq, hvalue⟩ := Option.map_eq_some_iff.mp h
    have htime := time_of_lastAt? hq
    obtain ⟨time, value⟩ := q
    obtain ⟨time', value'⟩ := p
    simp only at htime hvalue
    rw [hq, htime, hvalue]
  · intro h
    rw [h, Option.map_some]

/-- A series is made of its own points. -/
theorem ofPoints_points {s : Series} (hs : s.Increasing) : ofPoints s.points = s := by
  refine ext_find? (increasing_ofPoints s.points) hs fun time => ?_
  rw [find?_ofPoints, lastAt?_of_increasing hs]

/-! ## Sorting and overwriting -/

/-- Takes in a point: it takes the place of the newest one if that is at the same time. -/
def overwrite (newestFirst : List Point) (p : Point) : List Point :=
  match newestFirst with
  | [] => [p]
  | newest :: older => if newest.time = p.time then p :: older else p :: newest :: older

/-- Takes in points from the first to the last, each overwriting the one before it if that is at the
same time. -/
def overwriteAll (points : List Point) : List Point :=
  (points.foldl overwrite []).reverse

theorem lastAt?_append_singleton (points : List Point) (p : Point) (time : Timestamp) :
    lastAt? (points ++ [p]) time = if p.time = time then some p else lastAt? points time := by
  unfold lastAt?
  by_cases h : p.time = time <;> simp [List.filter_append, h]

/-- Taking in points that are in order keeps the last point at each time, the newest one first. -/
theorem foldl_overwrite {points : List Point}
    (h : points.Pairwise fun p q => p.time ≤ q.time) :
    (points.foldl overwrite []).Pairwise (fun p q => q.time < p.time) ∧
    ∀ time, find? ⟨points.foldl overwrite []⟩ time = (lastAt? points time).map Point.value := by
  induction points using List.reverseRecOn with
  | nil => exact ⟨List.Pairwise.nil, fun _ => rfl⟩
  | append_singleton points p ih =>
      obtain ⟨hpoints, -, hp⟩ := List.pairwise_append.mp h
      obtain ⟨hpairwise, hfind⟩ := ih hpoints
      rw [List.foldl_append, List.foldl_cons, List.foldl_nil]
      generalize points.foldl overwrite [] = kept at hpairwise hfind
      cases kept with
      | nil =>
          refine ⟨List.pairwise_singleton _ _, fun time => ?_⟩
          rw [overwrite, find?_cons, hfind, lastAt?_append_singleton]
          split <;> rfl
      | cons newest older =>
          obtain ⟨hnewest, holder⟩ := List.pairwise_cons.mp hpairwise
          -- The newest point kept is at the time of some given point.
          obtain ⟨q, hq, htime⟩ : ∃ q ∈ points, q.time = newest.time := by
            have hfound := hfind newest.time
            rw [find?_cons, if_pos rfl] at hfound
            rw [← isSome_lastAt?_iff, ← Option.isSome_map (f := Point.value), ← hfound]
            rfl
          have hle : newest.time ≤ p.time := htime ▸ hp q hq p List.mem_cons_self
          rw [overwrite]
          split
          · rename_i heq
            refine ⟨List.pairwise_cons.mpr ⟨fun r hr => heq ▸ hnewest r hr, holder⟩, fun time => ?_⟩
            rw [find?_cons, lastAt?_append_singleton]
            split
            · rfl
            · next hne => rw [← hfind, find?_cons, if_neg (heq ▸ hne)]
          · rename_i hne
            have hlt : newest.time < p.time := lt_of_le_of_ne hle hne
            refine ⟨List.pairwise_cons.mpr ⟨fun r hr => ?_, hpairwise⟩, fun time => ?_⟩
            · rcases List.mem_cons.mp hr with rfl | hr
              · exact hlt
              · exact Int.lt_trans (hnewest r hr) hlt
            · rw [find?_cons, lastAt?_append_singleton, hfind]
              split <;> rfl

theorem increasing_overwriteAll {points : List Point}
    (h : points.Pairwise fun p q => p.time ≤ q.time) : Increasing ⟨overwriteAll points⟩ :=
  List.pairwise_reverse.mpr (foldl_overwrite h).1

theorem find?_overwriteAll {points : List Point}
    (h : points.Pairwise fun p q => p.time ≤ q.time) (time : Timestamp) :
    find? ⟨overwriteAll points⟩ time = (lastAt? points time).map Point.value := by
  rw [← (foldl_overwrite h).2, ← lastAt?_of_increasing (increasing_overwriteAll h), lastAt?,
    overwriteAll, List.filter_reverse, List.getLast?_reverse, List.head?_filter]
  rfl

/-- Puts points in order of time; those at the same time stay in the order given. -/
def sortByTime (points : List Point) : List Point :=
  points.mergeSort fun p q => p.time ≤ q.time

theorem pairwise_sortByTime (points : List Point) :
    (sortByTime points).Pairwise fun p q => p.time ≤ q.time := by
  have hsorted : (sortByTime points).Pairwise fun p q => decide (p.time ≤ q.time) = true :=
    List.pairwise_mergeSort (by simpa using fun p q r : Point => Int.le_trans)
      (by simpa using fun p q : Point => Int.le_total p.time q.time) points
  simpa using hsorted

/-- Sorting keeps the points at a time in the order in which they were given. -/
theorem filter_sortByTime (points : List Point) (time : Timestamp) :
    ((sortByTime points).filter fun p => p.time = time) =
      points.filter fun p => p.time = time := by
  have hchosen : (points.filter fun p => p.time = time).Pairwise
      fun p q => decide (p.time ≤ q.time) = true := by
    refine List.pairwise_of_forall_mem_list fun p hp q hq => ?_
    have hp : p.time = time := by simpa using List.of_mem_filter hp
    have hq : q.time = time := by simpa using List.of_mem_filter hq
    simp [hp, hq]
  have hsub := List.sublist_mergeSort (by simpa using fun p q r : Point => Int.le_trans)
    (by simpa using fun p q : Point => Int.le_total p.time q.time) hchosen List.filter_sublist
  have hkept := hsub.filter fun p => p.time = time
  simp only [List.filter_filter, Bool.and_self] at hkept
  exact (hkept.eq_of_length ((List.mergeSort_perm points _).filter _).length_eq.symm).symm

/-- Sorting points and letting later ones overwrite earlier ones at the same time gives the series
made of them. -/
theorem ofPoints_eq_overwriteAll (points : List Point) :
    ofPoints points = ⟨overwriteAll (sortByTime points)⟩ := by
  have hsorted := pairwise_sortByTime points
  refine ext_find? (increasing_ofPoints points) (increasing_overwriteAll hsorted) fun time => ?_
  rw [find?_ofPoints, find?_overwriteAll hsorted, lastAt?, lastAt?, filter_sortByTime]

/-! ## Writing and reading -/

/-- What can be written as JSON and read again: a time that fits a 64-bit word, and a value that is
finite if there is one. -/
def Storable (p : Point) : Prop :=
  (-0x8000000000000000 ≤ p.time ∧ p.time < 0x8000000000000000) ∧ ∀ x ∈ p.value, x.isFinite

theorem ofJson?_toJson_point {p : Point} (h : Storable p) : Point.ofJson? p.toJson = some p := by
  obtain ⟨time, value⟩ := p
  obtain ⟨htime, hvalue⟩ := h
  have hread : Json.int64? (.int time) = some time := if_pos htime
  cases value with
  | none => simp [Point.toJson, Point.ofJson?, hread, Json.orNull?]
  | some x =>
      have hx : x.isFinite := hvalue x rfl
      simp [Point.toJson, Point.ofJson?, hread, Json.ofFloat, hx, Json.orNull?, Json.float?]

theorem ofJson?_toJson {s : Series} (hs : s.Increasing) (h : ∀ p ∈ s.points, Storable p) :
    ofJson? s.toJson = some s := by
  have hpoints : (s.points.map Point.toJson).mapM Point.ofJson? = some s.points := by
    generalize s.points = points at h
    induction points with
    | nil => rfl
    | cons p rest ih =>
        have hp := ofJson?_toJson_point (h p List.mem_cons_self)
        have hrest := ih fun q hq => h q (List.mem_cons_of_mem p hq)
        simp [List.mapM_cons, hp, hrest]
  rw [toJson, ofJson?, hpoints, Option.map_some, ofPoints_points hs]

/-! ## The normal form -/

/-- A series made of points has their times, in strictly increasing order, and at each of them the
last point given for it; sorting the points and letting later ones overwrite earlier ones comes to
the same. What is a series already stays as it is, so nothing changes when a series is made of
the points of one, or when one is written and read again. -/
theorem last_point_wins :
    (∀ points : List Point,
      (ofPoints points).Increasing ∧
      (∀ time, time ∈ (ofPoints points).times ↔ ∃ p ∈ points, p.time = time) ∧
      (∀ p, p ∈ (ofPoints points).points ↔
        (points.filter fun q => q.time = p.time).getLast? = some p) ∧
      ofPoints points = ⟨overwriteAll (sortByTime points)⟩ ∧
      ofPoints (ofPoints points).points = ofPoints points) ∧
    ∀ s : Series, s.Increasing →
      ofPoints s.points = s ∧ ((∀ p ∈ s.points, Storable p) → ofJson? s.toJson = some s) := by
  refine ⟨fun points => ⟨increasing_ofPoints points, mem_times_ofPoints points, mem_ofPoints points,
    ofPoints_eq_overwriteAll points, ?_⟩, fun s hs => ⟨ofPoints_points hs, ofJson?_toJson hs⟩⟩
  exact ofPoints_points (increasing_ofPoints points)

/-- Points out of order, with one time given three times. -/
def scattered : List Point :=
  [⟨5, some 1⟩, ⟨2, some 4⟩, ⟨5, none⟩, ⟨-1, none⟩, ⟨5, some 3⟩]

theorem last_point_wins_scattered :
    ⟨5, some 3⟩ ∈ (ofPoints scattered).points ∧
    (ofPoints scattered).Increasing ∧
    (∀ p ∈ (ofPoints scattered).points, Storable p) ∧
    ofJson? (ofPoints scattered).toJson = some (ofPoints scattered) := by
  obtain ⟨hnormal, hstays⟩ := last_point_wins
  have hincreasing := (hnormal scattered).1
  have hstorable : ∀ p ∈ (ofPoints scattered).points, Storable p := by
    change ∀ p ∈ [⟨-1, none⟩, ⟨2, some 4⟩, ⟨5, some 3⟩], Storable p
    simp only [List.forall_mem_cons, Storable]
    decide
  exact ⟨((hnormal scattered).2.2.1 _).mpr rfl, hincreasing, hstorable,
    (hstays _ hincreasing).2 hstorable⟩

end MetricScript.Series
