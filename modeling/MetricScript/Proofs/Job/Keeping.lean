import MetricScript.Proofs.Job.Determined
import MetricScript.Proofs.Job.Ending
import MetricScript.Proofs.Job.Sequential

/-! # Runs that keep series and runs that do not

Keeping a series saves time, and with it the order in which things are done changes: an argument
that has all it needs goes on at once, and the failures it meets with are recorded earlier. Nothing
else is changed. -/

namespace MetricScript

open Run Trace

namespace Job

variable {setting : Setting}

/-! ## Every access asks the source -/

end Job

namespace Script

end Script

end MetricScript
