import MetricScript.Metric.Endpoint
import MetricScript.Series.Basic

/-!
Where metrics come from. A source answers each call in the light of the calls before it, so that its
answers may change and it may fail or crash at any time.
-/

namespace MetricScript

/-- Why a source has no series to give. -/
inductive FetchError where
  | unavailable (detail : String)
  | malformed (detail : String)
  deriving DecidableEq, Repr

def FetchError.message : FetchError → String
  | .unavailable detail => "data source unavailable: " ++ detail
  | .malformed detail => "malformed response: " ++ detail

/-- One question to a source. -/
structure Call where
  endpoint : Endpoint
  id : String
  deriving DecidableEq, Repr

/-- What comes back from a call. -/
inductive Answer where
  | series (s : Series)
  | error (e : FetchError)
  /-- The source broke down, perhaps with a message. -/
  | crash (message : Option String)

/-- A source of metrics: the answer to a call, given the calls made before it, oldest first. -/
def Source := (earlier : List Call) → Call → Answer

namespace Source

/-- The source that knows a fixed set of series; of two for one call the later listed counts, and
for every other call it has an empty series. -/
def ofData (data : List (Call × Series)) : Source := fun _ call =>
  .series ((data.reverse.lookup call).getD .empty)

/-- The answers laid down for one call: each is given once, in order. -/
structure Scripted where
  call : Call
  /-- An absent answer leaves the question to the source behind. -/
  answers : List (Option Answer)

/-- A source that follows a script for some calls, as long as there are answers left, and leaves
everything else to another source. -/
def scripted (scripts : List Scripted) (behind : Source) : Source := fun earlier call =>
  let script := scripts.reverse.find? fun s => s.call == call
  let answer := script.bind fun s => s.answers[earlier.count call]?
  match answer with
  | some (some a) => a
  | _ => behind earlier call

end Source

end MetricScript
