import MetricScript.Run.State
import MetricScript.Value.Json

/-! What a run hands over when it ends, and its JSON form. -/

namespace MetricScript

structure Report where
  /-- The variables with their values. -/
  bindings : NameMap Value
  plots : List Plot
  highlights : List Highlight
  /-- Everything that went wrong, in order. -/
  diagnostics : List Diagnostic
  /-- The series that were fetched, by key. -/
  cache : NameMap Series

/-- The outcome of a run that has come this far. -/
def State.report (s : State) : Report :=
  ⟨s.bindings, s.plots, s.highlights, s.diagnostics, s.cache⟩

def Diagnostic.toJson (d : Diagnostic) : Json :=
  .object [("kind", .string (Named.name d.kind)), ("message", .string d.message)]

def Diagnostic.ofJson? (j : Json) : Option Diagnostic := do
  let fields ← j.record? ["kind", "message"]
  let kind ← Json.required? "kind" Json.named? fields
  let message ← Json.required? "message" Json.string? fields
  some ⟨kind, message⟩

def Plot.toJson (p : Plot) : Json :=
  .object
    [("series", p.series.toJson), ("label", Json.ofString? p.label),
      ("chartType", Json.ofString? (p.chartType.map Named.name)),
      ("color", Json.ofString? p.color), ("dashed", p.dashed.elim .null .bool),
      ("group", Value.optionToJson p.group)]

def Highlight.toJson (h : Highlight) : Json :=
  .object [("arguments", .array (h.arguments.map Value.optionToJson))]

namespace Report

def messages (r : Report) : List String :=
  r.diagnostics.map Diagnostic.message

def toJson (r : Report) : Json :=
  .object
    [("variables", .object (r.bindings.entries.map fun (name, v) => (name, v.toJson))),
      ("plots", .array (r.plots.map Plot.toJson)),
      ("highlights", .array (r.highlights.map Highlight.toJson)),
      ("errors", .array (r.messages.map .string)),
      ("diagnostics", .array (r.diagnostics.map Diagnostic.toJson)),
      ("cache", .object (r.cache.entries.map fun (key, s) => (key, s.toJson)))]

end Report

end MetricScript
