import MetricScript.Run.Basic
import MetricScript.Value.Basic

/-!
Computations that may be suspended. A job is what is left to do of a computation. It is polled until
it has ended; in between, others go on that run side by side with it.
-/

namespace MetricScript

/-- A place in the line of those who are after the series of a key. -/
structure Ticket where
  key : String
  number : Nat
  deriving DecidableEq

/-- What the computations share that run side by side. -/
structure Scene where
  state : State
  /-- Those who are after a series, in the order in which they came. -/
  line : List Ticket := []
  /-- The handles of which metrics were taken, whether they had to be fetched or not. -/
  handles : List Entity := []

namespace Scene

/-- A number that no one in the line has. -/
def freshNumber (scene : Scene) : Nat :=
  scene.line.foldl (fun n ticket => max n (ticket.number + 1)) 0

/-- The first one in line for a key asks the source for its series. The others wait until the first
one has the series, or has left the line without it. -/
def isTurn (scene : Scene) (setting : Setting) (ticket : Ticket) : Bool :=
  !setting.keepsSeries || (scene.state.cache.find? ticket.key).isSome ||
    scene.line.find? (fun other => other.key = ticket.key) == some ticket

/-- The ticket of the next one who is after a metric of a handle. -/
def nextTicket (scene : Scene) (entity : Entity) (property : String) : Ticket :=
  ⟨cacheKey entity.id property, scene.freshNumber⟩

def entered (scene : Scene) (entity : Entity) (property : String) : Scene :=
  { scene with
    line := scene.line ++ [scene.nextTicket entity property]
    handles := scene.handles ++ [entity] }

def left (scene : Scene) (ticket : Ticket) : Scene :=
  { scene with line := scene.line.erase ticket }

end Scene

/-- What is left to do of a computation. -/
inductive Job : Type → Type 1
  | ended {α : Type} (r : Except Stop α) : Job α
  /-- Does something at once. -/
  | doing {α β : Type} (x : Run β) (next : β → Job α) : Job α
  /-- Gets in line for a metric of a handle. -/
  | entering {α : Type} (entity : Entity) (property : String) (next : Ticket → Job α) : Job α
  /-- Goes on when it is the turn of a ticket. -/
  | waiting {α : Type} (ticket : Ticket) (rest : Job α) : Job α
  | leaving {α : Type} (ticket : Ticket) (rest : Job α) : Job α
  /-- Goes on after so many polls. -/
  | resting {α : Type} (polls : Nat) (rest : Job α) : Job α
  /-- Goes on with the result of a job; a crash goes through. -/
  | attempting {α : Type} (body : Job Value) (next : Except Failure Value → Job α) : Job α
  /-- Goes on with the results of jobs that run side by side; a crash goes through. -/
  | joined {α : Type} (children : List (Job Value))
      (next : List (Except Failure Value) → Job α) : Job α
  /-- Goes on whatever happens to a job: a failure or a crash is recorded. -/
  | contained {α : Type} (body : Job Unit) (rest : Job α) : Job α

/-- What comes of polling a job. -/
inductive Poll (α : Type) : Type 1
  | ready (r : Except Stop α) (scene : Scene)
  | pending (rest : Job α) (scene : Scene)

namespace Job

def bind {α β : Type} : Job α → (α → Job β) → Job β
  | .ended (.ok a), f => f a
  | .ended (.error stop), _ => .ended (.error stop)
  | .doing x next, f => .doing x fun b => (next b).bind f
  | .entering entity property next, f => .entering entity property fun t => (next t).bind f
  | .waiting ticket rest, f => .waiting ticket (rest.bind f)
  | .leaving ticket rest, f => .leaving ticket (rest.bind f)
  | .resting polls rest, f => .resting polls (rest.bind f)
  | .attempting body next, f => .attempting body fun result => (next result).bind f
  | .joined children next, f => .joined children fun results => (next results).bind f
  | .contained body rest, f => .contained body (rest.bind f)
termination_by structural job => job

instance : Monad Job where
  pure a := .ended (.ok a)
  bind := bind

instance : MonadLift Run Job where
  monadLift x := .doing x fun a => .ended (.ok a)

/-- The result of a job that ended without a crash. -/
def result? : Job Value → Option (Except Failure Value)
  | .ended (.ok value) => some (.ok value)
  | .ended (.error (.failed f)) => some (.error f)
  | _ => none

end Job

/-- What is left of a job after a poll, unless it crashed. -/
def Poll.left : Poll Value → Except Stop (Job Value) × Scene
  | .ready (.error (.crashed message)) scene => (.error (.crashed message), scene)
  | .ready r scene => (.ok (.ended r), scene)
  | .pending rest scene => (.ok rest, scene)

/-- The scene after a job that was run to the end whatever happened to it. Nobody is left in line,
since a crash takes everyone along who waited. -/
def Scene.settled (scene : Scene) (setting : Setting) (r : Except Stop Unit) : Scene :=
  { scene with state := (Run.contain (fun _ s => (r, s)) setting scene.state).2, line := [] }

namespace Job

mutual

/-- Goes on with a job until it has ended or cannot go on. -/
def poll {α : Type} (setting : Setting) : Job α → Scene → Poll α
  | .ended r, scene => .ready r scene
  | .doing x next, scene =>
    match x setting scene.state with
    | (.ok b, s) => (next b).poll setting { scene with state := s }
    | (.error stop, s) => .ready (.error stop) { scene with state := s }
  | .entering entity property next, scene =>
    (next (scene.nextTicket entity property)).poll setting (scene.entered entity property)
  | .waiting ticket rest, scene =>
    if scene.isTurn setting ticket then rest.poll setting scene
    else .pending (.waiting ticket rest) scene
  | .leaving ticket rest, scene => rest.poll setting (scene.left ticket)
  | .resting 0 rest, scene => rest.poll setting scene
  | .resting (polls + 1) rest, scene => .pending (.resting polls rest) scene
  | .attempting body next, scene =>
    match body.poll setting scene with
    | .ready (.ok value) scene => (next (.ok value)).poll setting scene
    | .ready (.error (.failed f)) scene => (next (.error f)).poll setting scene
    | .ready (.error (.crashed message)) scene => .ready (.error (.crashed message)) scene
    | .pending body scene => .pending (.attempting body next) scene
  | .joined children next, scene =>
    match pollAll setting children scene with
    | (.error stop, scene) => .ready (.error stop) scene
    | (.ok children, scene) =>
      match children.mapM result? with
      | some results => (next results).poll setting scene
      | none => .pending (.joined children next) scene
  | .contained body rest, scene =>
    match body.poll setting scene with
    | .ready r scene => rest.poll setting (scene.settled setting r)
    | .pending body scene => .pending (.contained body rest) scene
termination_by structural job => job

/-- Polls jobs from left to right, as long as none of them crashes. -/
def pollAll (setting : Setting) : List (Job Value) → Scene → Except Stop (List (Job Value)) × Scene
  | [], scene => (.ok [], scene)
  | job :: rest, scene =>
    match (job.poll setting scene).left with
    | (.error stop, scene) => (.error stop, scene)
    | (.ok job, scene) =>
      match pollAll setting rest scene with
      | (.error stop, scene) => (.error stop, scene)
      | (.ok rest, scene) => (.ok (job :: rest), scene)
termination_by structural jobs => jobs

end

/-- How a job ends if it is polled again so many times at most. -/
def outcome? {α : Type} (setting : Setting) : Nat → Job α → Scene → Option (Except Stop α × Scene)
  | 0, job, scene =>
    match job.poll setting scene with
    | .ready r scene => some (r, scene)
    | .pending _ _ => none
  | polls + 1, job, scene =>
    match job.poll setting scene with
    | .ready r scene => some (r, scene)
    | .pending rest scene => rest.outcome? setting polls scene

end Job

end MetricScript
