import MetricScript.Run.Job
import MetricScript.Run.Statement

/-!
Running a script whose source takes its time. What is suspended is a fetch. Whatever else can be
done while it lasts is done: the other arguments of the calls around it go on, unless arguments are
to be evaluated one after the other.
-/

namespace MetricScript

open Run

/-- For how many polls the source will leave a call without an answer. -/
def Run.delay (call : Call) : Run Nat := fun setting s =>
  (.ok (setting.pace s.calls call), s)

namespace Job

/-! ## Properties -/

/-- Asks the source for the metric behind a property of a handle. Its answer is there after as many
polls as the pace of the source says. -/
def ask (entity : Entity) (property : String) (endpoint : Endpoint) : Job Answer := do
  let polls ← delay ⟨endpoint, entity.id⟩
  let answer ← Run.ask entity property endpoint
  .resting polls (pure answer)

/-- Takes the answer to a fetch for a key. A series is kept from then on. -/
def receive (key : String) : Answer → Job (Except FetchError Series)
  | .series series => do
    keep key series
    pure (.ok series)
  | .error e => pure (.error e)
  | .crash message => (crash message : Run _)

/-- The series kept for a metric of a handle, or else the answer of a fetch. Whoever comes while a
fetch for the same key is under way waits for it. -/
def keptOrFetched (entity : Entity) (property : String) (fetch : Job Answer) :
    Job (Except FetchError Series) :=
  .entering entity property fun ticket => .waiting ticket do
    match ← kept? ticket.key with
    | some series => .leaving ticket (pure (.ok series))
    | none =>
      let answer ← fetch
      .leaving ticket (receive ticket.key answer)

def entityProperty (entity : Entity) (property : String) : Job Value := do
  match entity.kind.endpoint? property with
  | none => (fail (.noMetric property entity) : Run Value)
  | some endpoint =>
    match ← keptOrFetched entity property (ask entity property endpoint) with
    | .ok series => pure (.series series)
    | .error e => (fail (.fetch entity property e) : Run Value)

def property (base : Value) (property : String) : Job Value :=
  match base with
  | .entity entity => entityProperty entity property
  | base => Run.property base property

/-- Properties taken one after the other. -/
def properties (base : Value) : List String → Job Value
  | [] => pure base
  | name :: rest => do
    let value ← property base name
    properties value rest

/-- The value of a job, missing if it failed; the failure is recorded. -/
def settle (job : Job Value) : Job (Option Value) :=
  .attempting job fun result => settleResult result

/-- Runs jobs one after the other. -/
def inTurn : List (Job Value) → Job (List (Except Failure Value))
  | [] => pure []
  | job :: rest => .attempting job fun result => do
    let results ← inTurn rest
    pure (result :: results)

/-- The results of the arguments of a call, side by side or one after the other. -/
def allResults (jobs : List (Job Value)) : Job (List (Except Failure Value)) := do
  let setting ← setting
  if setting.config.concurrentArguments then .joined jobs pure else inTurn jobs

end Job

/-! ## Expressions, statements and scripts -/

mutual

def Expr.job : Expr → Job Value
  | .literal l => pure l.value
  | .variable name => nameValue name
  | .array items => do
    let values ← Expr.jobOfItems items
    pure (.list values)
  | .call function arguments => do
    let results ← Job.allResults (Expr.jobs arguments)
    let values ← settleResults results
    callFunction function values
  | .member base names => do
    let value ← base.job
    Job.properties value names
  | .chain first rest =>
    if rest.isEmpty then first.job
    else do
      let left ← Job.settle first.job
      match ← Expr.jobOfLinks left rest with
      | some value => pure value
      | none => (fail .unsupportedExpression : Run Value)
  | .not operand => do
    let value ← Job.settle operand.job
    let moment ← now
    pure (.series (Value.negate value moment))
  | .unsupported => (fail .unsupportedExpression : Run Value)
termination_by structural e => e

def Expr.jobs : List Expr → List (Job Value)
  | [] => []
  | e :: rest => e.job :: Expr.jobs rest
termination_by structural arguments => arguments

/-- Evaluates the items of an array, each settled before the next one begins. -/
def Expr.jobOfItems : List Expr → Job (List (Option Value))
  | [] => pure []
  | e :: rest => do
    let value ← Job.settle e.job
    let values ← Expr.jobOfItems rest
    pure (value :: values)
termination_by structural items => items

/-- Combines the operands of a chain with what is left of them, one after the other. -/
def Expr.jobOfLinks (left : Option Value) (rest : List (Operator × Expr)) : Job (Option Value) :=
  match rest with
  | [] => pure left
  | (op, e) :: rest => do
    let value ← Job.settle e.job
    let right ← refuseHandle e.variable? value
    let moment ← now
    Expr.jobOfLinks (some (.series (op.apply left right moment))) rest
termination_by structural rest

end

def Expr.jobOfArguments (arguments : List Expr) : Job (List (Option Value)) := do
  let results ← Job.allResults (Expr.jobs arguments)
  settleResults results

def Statement.job : Statement → Job Unit
  | .assignment name none => unbindVariable name
  | .assignment name (some e) => .attempting e.job fun
    | .ok value => bindVariable name value
    | .error f => (do
      unbindVariable name
      fail f : Run Unit)
  | .plot arguments =>
    if arguments.isEmpty then (fail .nothingToPlot : Run Unit)
    else do
      let values ← Expr.jobOfArguments arguments
      let values ← refuseHandles arguments values
      plotValues values
  | .highlight arguments => do
    let values ← Expr.jobOfArguments arguments
    addHighlight ⟨values⟩
  | .expression _ => pure ()
  | .unsupported rule => (fail (.unsupportedStatement rule) : Run Unit)

/-- Runs statements in order, each to the end before the next one begins. -/
def jobOfAll : List Statement → Job Unit
  | [] => pure ()
  | statement :: rest => .contained statement.job (jobOfAll rest)

def Script.job (script : Script) : Job Unit :=
  jobOfAll script.statements

end MetricScript
