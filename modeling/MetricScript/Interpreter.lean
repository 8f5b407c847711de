import MetricScript.Run.Report
import MetricScript.Run.Statement
import MetricScript.Script.OfTree
import MetricScript.Tree.Json

/-! Running whole scripts: from a script, from a syntax tree, or from the JSON text of one. -/

namespace MetricScript

/-- The state in which a computation leaves a run that starts from nothing. -/
def Run.finalState {α : Type} (x : Run α) (setting : Setting) : State :=
  (x setting {}).2

/-- The report on a run in which only one thing is done at a time. -/
def Script.interpret (script : Script) (setting : Setting) : Report :=
  (script.exec.finalState setting).report

def Node.interpret (root : Node) (setting : Setting) : Report :=
  (Script.ofTree root).interpret setting

/-- Runs the script that the tree in a JSON text stands for. -/
def interpretText (text : String) (setting : Setting) : Except LoadError Report :=
  match Node.ofText? text with
  | some root => .ok (root.interpret setting)
  | none => .error .malformed

end MetricScript
