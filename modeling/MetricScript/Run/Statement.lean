import MetricScript.Chart.Color
import MetricScript.Run.Expr

/-! Execution of statements and scripts. -/

namespace MetricScript

namespace Run

def bindVariable (name : String) (value : Value) : Run Unit :=
  change fun s => { s with bindings := s.bindings.insert name value }

def unbindVariable (name : String) : Run Unit :=
  change fun s => { s with bindings := s.bindings.erase name }

/-- Hands a plot over. -/
def addPlot (plot : Plot) : Run Unit :=
  change fun s => { s with plots := s.plots ++ [plot] }

/-- Hands a highlight over. -/
def addHighlight (highlight : Highlight) : Run Unit :=
  change fun s => { s with highlights := s.highlights ++ [highlight] }

/-- Assigns the value of an expression. If there is no expression, or if it fails, the name is left
without a value; a crash changes nothing. -/
def assign (name : String) : Option Expr → Run Unit
  | none => unbindVariable name
  | some e => do
    match ← attempt e.eval with
    | .ok value => bindVariable name value
    | .error f => do
      unbindVariable name
      fail f

/-- Refuses the handles among the values of arguments. -/
def refuseHandles : List Expr → List (Option Value) → Run (List (Option Value))
  | e :: arguments, value :: values => do
    let value ← refuseHandle e.variable? value
    let values ← refuseHandles arguments values
    pure (value :: values)
  | _, _ => pure []

/-- The chart type that a text asks for; an unknown one is recorded and replaced by an area. -/
def chartTypeOf : Option String → Run (Option ChartType)
  | none => pure none
  | some text =>
    match Named.ofName? text with
    | some chartType => pure (some chartType)
    | none => do
      record (.unknownChartType text)
      pure (some .area)

/-- The color that a text asks for; an invalid one is recorded and left out. -/
def colorOf : Option String → Run (Option String)
  | none => pure none
  | some text =>
    if Color.isValid text then pure (some text)
    else do
      record (.invalidColor text)
      pure none

/-- Plots the values of arguments: what is drawn, label, chart type, color, whether dashed, group.
Without anything to draw there is no plot; the reason has been recorded before. -/
def plotValues (values : List (Option Value)) : Run Unit :=
  let argument := Builtin.argument? values
  match argument 0 with
  | none => pure ()
  | some series =>
    if series.isEmptyCollection then fail .emptyPlot
    else do
      let chartType ← chartTypeOf ((argument 2).bind Value.string?)
      let color ← colorOf ((argument 3).bind Value.string?)
      addPlot
        { series
          label := (argument 1).bind Value.string?
          chartType
          color
          dashed := (argument 4).map Value.truthy
          group := argument 5 }

def plotArguments (arguments : List Expr) : Run Unit :=
  if arguments.isEmpty then fail .nothingToPlot
  else do
    let values ← Expr.evalArguments arguments
    let values ← refuseHandles arguments values
    plotValues values

end Run

open Run

/-- Executes a statement. Its own failure is not recorded by this. -/
def Statement.exec : Statement → Run Unit
  | .assignment name value => assign name value
  | .plot arguments => plotArguments arguments
  | .highlight arguments => do
    let values ← Expr.evalArguments arguments
    addHighlight ⟨values⟩
  | .expression _ => pure ()
  | .unsupported rule => fail (.unsupportedStatement rule)

/-- Executes statements in order. One that fails or during which the source crashes is recorded, and
the next one follows. -/
def execAll : List Statement → Run Unit
  | [] => pure ()
  | statement :: rest => do
    contain statement.exec
    execAll rest

def Script.exec (script : Script) : Run Unit :=
  execAll script.statements

end MetricScript
