import Mathlib.Data.Finset.Sort
import MetricScript.Proofs.Series.Increasing

/-! # Series by look-up

A series in order of time is known by what it has at each time. Looking up a time in what is made
from other series comes down to looking it up in these. -/

namespace MetricScript.Series

/-! ## One point at a time -/

@[simp] theorem find?_nil (time : Timestamp) : find? ⟨[]⟩ time = none := rfl

theorem find?_cons (p : Point) (rest : List Point) (time : Timestamp) :
    find? ⟨p :: rest⟩ time = if p.time = time then some p.value else find? ⟨rest⟩ time := by
  by_cases h : p.time = time <;> simp [find?, h]

/-- A series that begins after a time has nothing there. -/
theorem find?_eq_none_of_lt {points : List Point} {time : Timestamp}
    (h : ∀ p ∈ points, time < p.time) : find? ⟨points⟩ time = none := by
  induction points with
  | nil => rfl
  | cons p rest ih =>
      have hp : p.time ≠ time := (Int.ne_of_lt (h p List.mem_cons_self)).symm
      rw [find?_cons, if_neg hp]
      exact ih fun q hq => h q (List.mem_cons_of_mem p hq)

theorem mem_times_iff_find? (s : Series) (time : Timestamp) :
    time ∈ s.times ↔ (s.find? time).isSome := by
  obtain ⟨points⟩ := s
  induction points with
  | nil => simp [times]
  | cons p rest ih =>
      rw [find?_cons]
      by_cases h : p.time = time
      · simp [times, h]
      · simpa [times, h, Ne.symm h] using ih

theorem mem_points_iff_find? {s : Series} (hs : s.Increasing) (p : Point) :
    p ∈ s.points ↔ s.find? p.time = some p.value := by
  obtain ⟨points⟩ := s
  change points.Pairwise (fun p q => p.time < q.time) at hs
  induction points with
  | nil => simp
  | cons q rest ih =>
      obtain ⟨hq, hrest⟩ := List.pairwise_cons.mp hs
      rw [find?_cons, List.mem_cons, ih hrest]
      by_cases h : q.time = p.time
      · -- A later point would have a later time.
        have hnone : find? ⟨rest⟩ p.time = none :=
          find?_eq_none_of_lt fun r hr => h ▸ hq r hr
        rw [if_pos h, hnone]
        obtain ⟨time, value⟩ := p
        obtain ⟨time', value'⟩ := q
        simp only at h
        subst h
        simp [eq_comm]
      · have hne : p ≠ q := by
          intro heq
          exact h (heq ▸ rfl)
        rw [if_neg h]
        simp [hne]

/-- Series in order are the same if they have the same at each time. -/
theorem ext_find? {s t : Series} (hs : s.Increasing) (ht : t.Increasing)
    (h : ∀ time, s.find? time = t.find? time) : s = t := by
  have hmem : ∀ p, p ∈ s.points ↔ p ∈ t.points := by
    intro p
    rw [mem_points_iff_find? hs, mem_points_iff_find? ht, h]
  have : Std.Irrefl fun p q : Point => p.time < q.time := ⟨fun p => Int.lt_irrefl p.time⟩
  have hpoints : s.points = t.points :=
    List.Pairwise.eq_of_mem_iff hs ht fun {p} => hmem p
  cases s
  cases t
  exact congrArg Series.mk hpoints

/-! ## What is made from other series -/

theorem find?_mapValues (f : Option Float → Option Float) (s : Series) (time : Timestamp) :
    (s.mapValues f).find? time = (s.find? time).map f := by
  obtain ⟨points⟩ := s
  induction points with
  | nil => rfl
  | cons p rest ih =>
      change find? ⟨⟨p.time, f p.value⟩ :: (mapValues f ⟨rest⟩).points⟩ time = _
      rw [find?_cons, find?_cons]
      by_cases h : p.time = time
      · simp [h]
      · simpa only [h, if_false] using ih

/-- What two series have at a time, put together; zero stands in for a missing point. -/
def together (f : Option Float → Option Float → Option Float) :
    Option (Option Float) → Option (Option Float) → Option (Option Float)
  | none, none => none
  | x, y => some (f (x.getD (some 0)) (y.getD (some 0)))

theorem find?_alignPoints {f : Option Float → Option Float → Option Float}
    {left right : List Point} (hleft : left.Pairwise fun p q => p.time < q.time)
    (hright : right.Pairwise fun p q => p.time < q.time) (time : Timestamp) :
    find? ⟨alignPoints f left right⟩ time =
      together f (find? ⟨left⟩ time) (find? ⟨right⟩ time) := by
  fun_induction alignPoints f left right with
  | case1 right =>
      rw [find?_nil]
      refine (find?_mapValues (f (some 0)) ⟨right⟩ time).trans ?_
      cases find? ⟨right⟩ time <;> rfl
  | case2 left =>
      rw [find?_nil]
      refine (find?_mapValues (fun x => f x (some 0)) ⟨left⟩ time).trans ?_
      cases find? ⟨left⟩ time <;> rfl
  | case3 p left q right hlt ih =>
      obtain ⟨hp, hleft'⟩ := List.pairwise_cons.mp hleft
      rw [find?_cons, ih hleft' hright, find?_cons p left]
      by_cases h : p.time = time
      · have hnone : find? ⟨q :: right⟩ time = none := by
          refine find?_eq_none_of_lt fun r hr => ?_
          rcases List.mem_cons.mp hr with rfl | hr
          · exact h ▸ hlt
          · exact h ▸ Int.lt_trans hlt ((List.pairwise_cons.mp hright).1 r hr)
        simp [h, hnone, together]
      · simp [h]
  | case4 p left q right hlt hgt ih =>
      obtain ⟨hq, hright'⟩ := List.pairwise_cons.mp hright
      rw [find?_cons, ih hleft hright', find?_cons q right]
      by_cases h : q.time = time
      · have hnone : find? ⟨p :: left⟩ time = none := by
          refine find?_eq_none_of_lt fun r hr => ?_
          rcases List.mem_cons.mp hr with rfl | hr
          · exact h ▸ hgt
          · exact h ▸ Int.lt_trans hgt ((List.pairwise_cons.mp hleft).1 r hr)
        simp [h, hnone, together]
      · simp [h]
  | case5 p left q right hlt hgt ih =>
      have hleft' := (List.pairwise_cons.mp hleft).2
      have hright' := (List.pairwise_cons.mp hright).2
      have htime : q.time = p.time := Int.le_antisymm (Int.not_lt.mp hlt) (Int.not_lt.mp hgt)
      rw [find?_cons, ih hleft' hright', find?_cons p left, find?_cons q right]
      by_cases h : p.time = time
      · simp [h, htime, together]
      · simp [h, htime]

theorem find?_align {s t : Series} (hs : s.Increasing) (ht : t.Increasing)
    (f : Option Float → Option Float → Option Float) (time : Timestamp) :
    (s.align f t).find? time = together f (s.find? time) (t.find? time) :=
  find?_alignPoints hs ht time

/-! ## Tables -/

/-- The series with the given values at the given times. -/
def tabulate (times : List Timestamp) (value : Timestamp → Option Float) : Series :=
  ⟨times.map fun time => ⟨time, value time⟩⟩

theorem times_tabulate (times : List Timestamp) (value : Timestamp → Option Float) :
    (tabulate times value).times = times := by
  simp [tabulate, Series.times, Function.comp_def]

theorem find?_tabulate (times : List Timestamp) (value : Timestamp → Option Float)
    (time : Timestamp) :
    (tabulate times value).find? time = if time ∈ times then some (value time) else none := by
  induction times with
  | nil => rfl
  | cons first rest ih =>
      change find? ⟨⟨first, value first⟩ :: (tabulate rest value).points⟩ time = _
      rw [find?_cons]
      by_cases h : first = time
      · simp [h]
      · simpa only [h, if_false, List.mem_cons, Ne.symm h, false_or] using ih

/-- The times of two series together, in order. -/
def unionTimes (s t : Series) : List Timestamp :=
  (s.times.toFinset ∪ t.times.toFinset).sort

theorem pairwise_unionTimes (s t : Series) : (s.unionTimes t).Pairwise (· < ·) :=
  (Finset.sortedLT_sort _).pairwise

theorem mem_unionTimes (s t : Series) (time : Timestamp) :
    time ∈ s.unionTimes t ↔ time ∈ s.times ∨ time ∈ t.times := by
  simp [unionTimes]

/-- Combining two series gives the table of the combined values over all their times. -/
theorem align_eq_tabulate {s t : Series} (hs : s.Increasing) (ht : t.Increasing)
    (f : Option Float → Option Float → Option Float) :
    s.align f t = tabulate (s.unionTimes t) fun time =>
      f ((s.find? time).getD (some 0)) ((t.find? time).getD (some 0)) := by
  have htable := pairwise_unionTimes s t
  refine ext_find? (hs.align ht f) ?_ ?_
  · rw [increasing_iff_times, times_tabulate]
    exact htable
  · intro time
    rw [find?_align hs ht, find?_tabulate]
    simp only [mem_unionTimes, mem_times_iff_find?]
    cases s.find? time <;> cases t.find? time <;> simp [together]

/-- Replacing the values of a series gives the table of the new values over its times. -/
theorem mapValues_eq_tabulate {s : Series} (hs : s.Increasing)
    (f : Option Float → Option Float) :
    s.mapValues f = tabulate s.times fun time => f ((s.find? time).getD (some 0)) := by
  refine ext_find? (hs.of_times (s.times_mapValues f)) (hs.of_times (times_tabulate _ _)) ?_
  intro time
  rw [find?_mapValues, find?_tabulate]
  simp only [mem_times_iff_find?]
  cases s.find? time <;> simp

end MetricScript.Series
