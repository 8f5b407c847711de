import MetricScript.Builtin.Basic
import MetricScript.Metric.Source
import MetricScript.Value.Display

/-! What can go wrong in a run, how it is classified and what is said about it. -/

namespace MetricScript

/-- A cause for which an expression or a statement fails. -/
inductive Failure where
  | undefinedVariable (name : String)
  /-- A value that is no handle has no such property. -/
  | noProperty (property : String)
  /-- There is no such metric for the kind of the handle. -/
  | noMetric (property : String) (entity : Entity)
  /-- A handle was to be made from anything other than one text. -/
  | noIdentifier (kind : EntityKind) (arguments : List (Option Value))
  | seriesExpected (builtin : Builtin)
  | windowExpected (builtin : Builtin)
  | unknownFunction (name : String)
  | nothingToPlot
  | unknownChartType (text : String)
  | invalidColor (text : String)
  /-- A handle stands where a value is needed; the variable is named if it came from one. -/
  | handleAsValue (name : Option String) (entity : Entity)
  | emptyPlot
  | unsupportedExpression
  | unsupportedStatement (rule : String)
  | fetch (entity : Entity) (property : String) (error : FetchError)
  | crash (message : String)

inductive FailureKind where
  | undefinedVariable
  | unresolvedProperty
  | invalidArgument
  | entityMisuse
  | emptySeries
  | unsupportedNode
  | fetchFailed
  | interpreterError
  deriving DecidableEq, Repr

instance : Named FailureKind where
  members :=
    [.undefinedVariable, .unresolvedProperty, .invalidArgument, .entityMisuse, .emptySeries,
      .unsupportedNode, .fetchFailed, .interpreterError]
  name
    | .undefinedVariable => "UndefinedVariable"
    | .unresolvedProperty => "UnresolvedProperty"
    | .invalidArgument => "InvalidArgument"
    | .entityMisuse => "EntityMisuse"
    | .emptySeries => "EmptySeries"
    | .unsupportedNode => "UnsupportedNode"
    | .fetchFailed => "FetchFailed"
    | .interpreterError => "InterpreterError"

/-- A failure as it is told to the author of a script. -/
structure Diagnostic where
  kind : FailureKind
  message : String
  deriving DecidableEq, Repr

namespace Failure

def kind : Failure → FailureKind
  | .undefinedVariable _ => .undefinedVariable
  | .noProperty _ => .unresolvedProperty
  | .noMetric _ _ => .unresolvedProperty
  | .noIdentifier _ _ => .invalidArgument
  | .seriesExpected _ => .invalidArgument
  | .windowExpected _ => .invalidArgument
  | .unknownFunction _ => .invalidArgument
  | .nothingToPlot => .invalidArgument
  | .unknownChartType _ => .invalidArgument
  | .invalidColor _ => .invalidArgument
  | .handleAsValue _ _ => .entityMisuse
  | .emptyPlot => .emptySeries
  | .unsupportedExpression => .unsupportedNode
  | .unsupportedStatement _ => .unsupportedNode
  | .fetch _ _ _ => .fetchFailed
  | .crash _ => .interpreterError

/-- The arguments of a call as a message shows them; no argument at all shows like a missing one. -/
def describeArguments : List (Option Value) → String
  | [] => Value.displayOption none
  | arguments => ", ".intercalate (arguments.map Value.displayOption)

/-- The complaint of a function that was not given its series. -/
def seriesExpectedMessage : Builtin → String
  | .ma => Builtin.label .ma ++ " expects a series as first argument"
  | .ema => Builtin.label .ema ++ " expects a series as first argument"
  | b => b.spelling ++ "() expects a series"

def message : Failure → String
  | .undefinedVariable name => "Undefined variable: " ++ name
  | .noProperty property => "Property " ++ property ++ " not found"
  | .noMetric property entity => "Property " ++ property ++ " not found on " ++ entity.display
  | .noIdentifier kind arguments =>
    "Invalid " ++ kind.label ++ " argument: " ++ describeArguments arguments
  | .seriesExpected b => seriesExpectedMessage b
  | .windowExpected b => b.label ++ " expects a positive integer window"
  | .unknownFunction name => "Unknown function: " ++ name
  | .nothingToPlot => "plot() expects at least one argument"
  | .unknownChartType text => "Only 'area' and 'bar' chart types are supported. Got: " ++ text
  | .invalidColor text => "Invalid color: " ++ text
  | .handleAsValue name entity =>
    "Variable" ++ name.elim "" (fun name => " '" ++ name ++ "'") ++ " is a "
      ++ entity.display ++ " entity but no data property (e.g. .tvl, .volume) was selected. "
      ++ "Please select a property."
  | .emptyPlot =>
    "The data series for the plot is empty or unavailable. Please check your data source."
  | .unsupportedExpression => "Unsupported expression node encountered."
  | .unsupportedStatement rule => "Unsupported statement type: " ++ rule
  | .fetch entity property error =>
    "Failed to load " ++ property ++ " for " ++ entity.display ++ ": " ++ error.message
  | .crash text => "Interpreter error: " ++ text

/-- A failure as it is told to the author of a script. -/
def diagnostic (f : Failure) : Diagnostic :=
  ⟨f.kind, f.message⟩

end Failure

end MetricScript
