import MetricScript.Chart.Plot
import MetricScript.NameMap
import MetricScript.Run.Config
import MetricScript.Run.Failure

/-! What a run has brought about so far, and what stays fixed while it lasts. -/

namespace MetricScript

/-- The key under which a series is kept. The kind of the handle has no part in it. -/
def cacheKey (id property : String) : String :=
  id ++ "-" ++ property

/-- A call to the source for a property of a handle, with its answer. -/
structure Fetch where
  entity : Entity
  property : String
  endpoint : Endpoint
  answer : Answer

/-- The call as the source sees it. -/
def Fetch.call (f : Fetch) : Call :=
  ⟨f.endpoint, f.entity.id⟩

/-- The key on whose behalf the call was made. -/
def Fetch.key (f : Fetch) : String :=
  cacheKey f.entity.id f.property

/-- What a run has brought about so far. The lists are in order of time. -/
structure State where
  /-- The variables with their values. -/
  bindings : NameMap Value := .empty
  plots : List Plot := []
  highlights : List Highlight := []
  failures : List Failure := []
  /-- Series that were fetched, by key. -/
  cache : NameMap Series := .empty
  fetches : List Fetch := []
  deriving Inhabited

namespace State

/-- The failures as they are told to the author of a script. -/
def diagnostics (s : State) : List Diagnostic :=
  s.failures.map Failure.diagnostic

def calls (s : State) : List Call :=
  s.fetches.map Fetch.call

end State

/-- How long a source takes: for how many polls a call, made after others, stays unanswered. -/
def Pace := (earlier : List Call) → Call → Nat

/-- What stays fixed during a run. -/
structure Setting where
  source : Source
  config : Config := {}
  /-- The present moment, unless the configuration has another one. -/
  clock : Timestamp := 0
  /-- Whether a series, once fetched, is kept for the rest of the run. -/
  keepsSeries : Bool := true
  pace : Pace := fun _ _ => 0

/-- Every call is answered at once, so that nothing is ever suspended. -/
def Setting.Prompt (setting : Setting) : Prop :=
  ∀ earlier call, setting.pace earlier call = 0

/-- Nothing ever goes on while something else waits: arguments are evaluated one after the other, or
there is no waiting. -/
def Setting.OneAtATime (setting : Setting) : Prop :=
  setting.config.concurrentArguments = false ∨ setting.Prompt

/-- The moment at which values without a time of their own are placed. -/
def Setting.now (setting : Setting) : Timestamp :=
  setting.config.nowOverride.getD setting.clock

end MetricScript
