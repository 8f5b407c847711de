import MetricScript.Interpreter
import MetricScript.Proofs.Cache.Cell
import MetricScript.Proofs.Chart.ColorGrammar
import MetricScript.Proofs.Failure.Calm
import MetricScript.Proofs.Failure.Crash
import MetricScript.Proofs.Failure.Loss
import MetricScript.Proofs.Failure.Origin
import MetricScript.Proofs.Grammar.Operands
import MetricScript.Proofs.Grammar.ScriptText
import MetricScript.Proofs.Job.Keeping
import MetricScript.Proofs.Report.Plots
import MetricScript.Proofs.Run.Chain
import MetricScript.Proofs.Series.Causal
import MetricScript.Proofs.Series.LastWins
import MetricScript.Proofs.Value.Handle
import MetricScript.Proofs.Value.NullAsZero
import MetricScript.Series.Json
import MetricScript.Series.Transform
