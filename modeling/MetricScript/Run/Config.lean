import MetricScript.Json.Decode
import MetricScript.Json.Reader
import MetricScript.Series.Basic

/-! The settings of an interpreter, and reading them from JSON. -/

namespace MetricScript

/-- Why a document was not accepted. -/
inductive LoadError where
  /-- There is no such file. -/
  | noFile
  /-- The text is no JSON, or the JSON has not the shape that is asked for. -/
  | malformed
  /-- The default window of averages is zero. -/
  | zeroWindow
  deriving DecidableEq, Repr

/-- What is said about a document that was not accepted; nothing if the text alone is at fault. -/
def LoadError.message? : LoadError → Option String
  | .zeroWindow => some "Config error: default_window must be a positive integer"
  | _ => none

structure Config where
  /-- Window of averages that are called without one. -/
  defaultWindow : Nat := 14
  /-- Whether the arguments of a call are evaluated side by side: while one of them waits for its
  source the others go on. Otherwise each one ends before the next one begins. -/
  concurrentArguments : Bool := true
  /-- The moment that counts as present, instead of the clock. -/
  nowOverride : Option Timestamp := none
  deriving DecidableEq, Repr

namespace Config

/-- Reads settings; what is not given takes its default. -/
def ofJson? (j : Json) : Option Config := do
  let fields ← j.record? ["default_window", "evaluate_arguments_concurrently", "now_override"]
  let window ← Json.defaulted? "default_window" 14 Json.word? fields
  let concurrent ← Json.defaulted? "evaluate_arguments_concurrently" true Json.bool? fields
  let now ← Json.defaulted? "now_override" none (Json.orNull? Json.int64?) fields
  some ⟨window, concurrent, now⟩

/-- Refuses a window that nothing fits into. -/
def validate (c : Config) : Except LoadError Config :=
  if c.defaultWindow = 0 then .error .zeroWindow else .ok c

def load (j : Json) : Except LoadError Config :=
  match ofJson? j with
  | some c => c.validate
  | none => .error .malformed

def ofText (text : String) : Except LoadError Config :=
  match Json.parse? text with
  | some j => load j
  | none => .error .malformed

/-- Reads settings from the text of a file, absent if there is no file. -/
def ofFile (content : Option String) : Except LoadError Config :=
  match content with
  | some text => ofText text
  | none => .error .noFile

end Config

end MetricScript
