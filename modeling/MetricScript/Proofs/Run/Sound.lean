import MetricScript.Proofs.Trace.Frame
import MetricScript.Proofs.Value.Sound
import MetricScript.Run.Report

/-! # Sound states

A state is sound for a property of series if all values in it are, where an item may be missing once
a failure was recorded. A quiet step keeps a state sound, whatever the source does besides giving
series with the property. -/

namespace MetricScript

open Run Trace

/-- Whatever series the source gives has the property. -/
def Source.Gives (source : Source) (P : Series → Prop) : Prop :=
  ∀ earlier call s, source earlier call = .series s → P s

/-- Every value in the state is sound; something may be missing once a failure was recorded. -/
structure State.Sound (P : Series → Prop) (s : State) : Prop where
  bindings : ∀ entry ∈ s.bindings.entries, Value.Sound P (s.failures ≠ []) (some entry.2)
  drawn : ∀ plot ∈ s.plots, Value.Sound P (s.failures ≠ []) (some plot.series)
  groups : ∀ plot ∈ s.plots, ∀ group, plot.group = some group →
    Value.Sound P (s.failures ≠ []) (some group)
  highlights : ∀ highlight ∈ s.highlights, ∀ argument ∈ highlight.arguments,
    Value.Sound P (s.failures ≠ []) argument
  cache : ∀ entry ∈ s.cache.entries, P entry.2

/-- What occurs in a report, at any depth: in the value of a variable, in what is plotted or grouped
by, in an argument of a highlight, or in the cache. -/
inductive Report.Holds (r : Report) (part : Option Value) : Prop where
  | bound {entry : String × Value} (hentry : entry ∈ r.bindings.entries)
      (h : Value.Part part (some entry.2))
  | drawn {plot : Plot} (hplot : plot ∈ r.plots) (h : Value.Part part (some plot.series))
  | grouped {plot : Plot} {group : Value} (hplot : plot ∈ r.plots)
      (hgroup : plot.group = some group) (h : Value.Part part (some group))
  | marked {highlight : Highlight} {argument : Option Value} (hmark : highlight ∈ r.highlights)
      (hargument : argument ∈ highlight.arguments) (h : Value.Part part argument)
  | kept {entry : String × Series} (hentry : entry ∈ r.cache.entries)
      (h : part = some (.series entry.2))

/-- Whatever occurs in the report of a sound state is sound. -/
theorem State.Sound.of_holds {P : Series → Prop} {s : State} (hs : s.Sound P)
    {part : Option Value} (h : s.report.Holds part) : Value.Sound P (s.failures ≠ []) part := by
  cases h with
  | bound hentry h => exact (hs.bindings _ hentry).of_part h
  | drawn hplot h => exact (hs.drawn _ hplot).of_part h
  | grouped hplot hgroup h => exact (hs.groups _ hplot _ hgroup).of_part h
  | marked hmark hargument h => exact (hs.highlights _ hmark _ hargument).of_part h
  | kept hentry h => exact h ▸ .series (hs.cache _ hentry)

/-! ## Steps -/

namespace State.Sound

variable {P : Series → Prop} {s t : State}

theorem initial : State.Sound P {} where
  bindings _ h := absurd h List.not_mem_nil
  drawn _ h := absurd h List.not_mem_nil
  groups _ h := absurd h List.not_mem_nil
  highlights _ h := absurd h List.not_mem_nil
  cache _ h := absurd h List.not_mem_nil

/-- A state that has the same values and more failures is sound. -/
theorem of_failures (hs : s.Sound P) (hbindings : t.bindings = s.bindings)
    (hplots : t.plots = s.plots) (hhighlights : t.highlights = s.highlights)
    (hcache : ∀ entry ∈ t.cache.entries, P entry.2) (hfailures : s.failures <+: t.failures) :
    t.Sound P where
  bindings entry h := (hs.bindings entry (hbindings ▸ h)).mono hfailures.ne_nil
  drawn plot h := (hs.drawn plot (hplots ▸ h)).mono hfailures.ne_nil
  groups plot h group hgroup :=
    (hs.groups plot (hplots ▸ h) group hgroup).mono hfailures.ne_nil
  highlights highlight h argument hargument :=
    (hs.highlights highlight (hhighlights ▸ h) argument hargument).mono hfailures.ne_nil
  cache := hcache

theorem recording (hs : s.Sound P) (failures : List Failure) : (s.recording failures).Sound P :=
  hs.of_failures rfl rfl rfl hs.cache (List.prefix_append _ _)

theorem asked (hs : s.Sound P) (fetch : Fetch) : (s.asked fetch).Sound P :=
  hs.of_failures rfl rfl rfl hs.cache (List.prefix_refl _)

theorem keeping (hs : s.Sound P) {series : Series} (h : P series) (setting : Setting)
    (key : String) : (s.keeping setting key series).Sound P := by
  unfold State.keeping
  split
  · refine hs.of_failures rfl rfl rfl (fun entry hentry => ?_) (List.prefix_refl _)
    rcases NameMap.mem_insert hentry with rfl | hentry
    · exact h
    · exact hs.cache entry hentry
  · exact hs

theorem bind (hs : s.Sound P) {v : Value} (h : Value.Sound P (s.failures ≠ []) (some v))
    (name : String) : State.Sound P { s with bindings := s.bindings.insert name v } where
  bindings entry hentry := by
    rcases NameMap.mem_insert hentry with rfl | hentry
    · exact h
    · exact hs.bindings entry hentry
  drawn := hs.drawn
  groups := hs.groups
  highlights := hs.highlights
  cache := hs.cache

theorem unbind (hs : s.Sound P) (name : String) :
    State.Sound P { s with bindings := s.bindings.erase name } where
  bindings entry hentry := hs.bindings entry (List.mem_filter.mp hentry).1
  drawn := hs.drawn
  groups := hs.groups
  highlights := hs.highlights
  cache := hs.cache

theorem draw (hs : s.Sound P) {plot : Plot}
    (hseries : Value.Sound P (s.failures ≠ []) (some plot.series))
    (hgroup : ∀ group, plot.group = some group → Value.Sound P (s.failures ≠ []) (some group)) :
    State.Sound P { s with plots := s.plots ++ [plot] } where
  bindings := hs.bindings
  drawn other h := by
    rcases List.mem_append.mp h with h | h
    · exact hs.drawn other h
    · rw [List.mem_singleton.mp h]
      exact hseries
  groups other h := by
    rcases List.mem_append.mp h with h | h
    · exact hs.groups other h
    · rw [List.mem_singleton.mp h]
      exact hgroup
  highlights := hs.highlights
  cache := hs.cache

theorem mark (hs : s.Sound P) {highlight : Highlight}
    (h : ∀ argument ∈ highlight.arguments, Value.Sound P (s.failures ≠ []) argument) :
    State.Sound P { s with highlights := s.highlights ++ [highlight] } where
  bindings := hs.bindings
  drawn := hs.drawn
  groups := hs.groups
  highlights other hother := by
    rcases List.mem_append.mp hother with hother | hother
    · exact hs.highlights other hother
    · rw [List.mem_singleton.mp hother]
      exact h
  cache := hs.cache

end State.Sound

section Runs

variable {P : Series → Prop} {setting : Setting} (hsource : setting.source.Gives P)

include hsource

/-- A quiet step keeps a state sound, whatever values it works on. -/
theorem Step.sound_of_quiet {step : Step} (h : step.isQuiet = true) {s : State} (hs : s.Sound P) :
    (step.apply setting s).Sound P := by
  cases step with
  | access base name =>
      rcases property_state_cases base name setting s with
        hstate | ⟨entity, endpoint, -, -, -, ⟨-, hstate⟩ | ⟨series, hanswer, hstate⟩⟩
      · simpa only [apply, hstate] using hs
      · simpa only [apply, hstate] using hs.asked _
      · simp only [apply, hstate]
        exact (hs.asked _).keeping (hsource _ _ series hanswer) setting _
  | check name value => exact hs.recording _
  | chartType text => exact hs.recording _
  | color text => exact hs.recording _
  | record f => exact hs.recording _
  | bind name value => cases h
  | unbind name => cases h
  | draw plot => cases h
  | mark highlight => cases h
  | _ => exact hs

theorem Trace.Quiet.throughout_sound {t : Trace} (ht : t.Quiet) {s : State} (hs : s.Sound P) :
    Throughout (State.Sound P) setting s (t setting s) :=
  throughout_of_preserved hs fun _ hstep _ h => Step.sound_of_quiet hsource (ht _ _ _ hstep) h

/-- A computation with quiet steps leaves a sound state, even if it fails or crashes. -/
theorem Traces.sound {α : Type} {t : Trace} {x : Run α} (h : Traces t x) (ht : t.Quiet)
    {s s' : State} {r : Except Stop α} (hx : x setting s = (r, s')) (hs : s.Sound P) :
    s'.Sound P := by
  have hlast := (ht.throughout_sound hsource hs).last
  rw [h setting s, hx] at hlast
  exact hlast

end Runs

end MetricScript
