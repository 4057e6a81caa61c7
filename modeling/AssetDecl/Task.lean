import AssetDecl.Text.Quoted
import Std.Data.ExtTreeMap

/-!
# Background tasks

A task runs its job on a worker of its own and can be started again after a reset. Any thread may
start it, wait for it, reset it and ask whether it has finished. A call is a sequence of short
steps, each of which looks at the shared state once, so that calls of several threads may be
interleaved.
-/

namespace AssetDecl

abbrev ThreadId := Nat

/-- How far a worker has come. -/
inductive WorkerLife where
  | spawned
  | alive
  | exited (panicked : Bool)
  deriving DecidableEq, Repr

/-- Who is responsible for the worker. -/
inductive TaskState where
  | idle
  /-- The worker is nobody's yet. -/
  | running (worker : ThreadId)
  /-- Some caller waits for the worker's exit. -/
  | joining
  | finished
  deriving DecidableEq, Repr

/-- A task as all threads see it. -/
structure Task where
  name : String
  state : TaskState := .idle
  /-- The worker that entered the job last. -/
  known : Option ThreadId := none
  workers : Std.ExtTreeMap ThreadId WorkerLife := ∅
  /-- Number of the next worker. -/
  nextWorker : ThreadId

/-- Where a call stands. `resets` tells whether it is a reset, which waits first. -/
inductive CallPoint where
  | starting
  | asking
  /-- About to see whether the caller is the worker itself. -/
  | checking (resets : Bool)
  /-- About to look at the state. -/
  | looking (resets : Bool)
  /-- Waiting for the exit of the worker it has taken. -/
  | waiting (worker : ThreadId) (resets : Bool)
  /-- About to tell that the worker has exited. -/
  | storing (panicked resets : Bool)
  /-- About to make the task idle. -/
  | idling (panicked : Bool)
  /-- About to forget the worker. -/
  | forgetting (panicked : Bool)
  deriving DecidableEq, Repr

/-- What a call returns. -/
inductive CallResult where
  | ok
  | panicked
  | answer (finished : Bool)
  deriving DecidableEq, Repr

/-- What a step of a call comes to. -/
inductive CallStep where
  | blocked
  | moved (task : Task) (point : CallPoint)
  | returned (task : Task) (result : CallResult)

namespace CallPoint

/-- A call has at most so many steps left. -/
def rank : CallPoint → Nat
  | starting | asking | forgetting _ => 1
  | idling _ => 2
  | storing _ _ => 3
  | waiting _ _ => 4
  | looking _ => 5
  | checking _ => 6

end CallPoint

namespace Task

/-- Whether a worker has exited, and how. -/
def exit? (t : Task) (worker : ThreadId) : Option Bool :=
  match t.workers[worker]? with
  | some (.exited panicked) => some panicked
  | _ => none

/-- Makes a worker, which is to run the job. -/
def spawn (t : Task) : Task :=
  { t with
    state := .running t.nextWorker
    workers := t.workers.insert t.nextWorker .spawned
    nextWorker := t.nextWorker + 1 }

/-- A worker begins the job. -/
def enter (t : Task) (worker : ThreadId) : Task :=
  { t with known := some worker, workers := t.workers.insert worker .alive }

/-- A worker ends the job. -/
def exit (t : Task) (worker : ThreadId) (panicked : Bool) : Task :=
  { t with workers := t.workers.insert worker (.exited panicked) }

/-- The result of a wait. -/
def outcome (panicked : Bool) : CallResult :=
  if panicked then .panicked else .ok

/-- The end of a wait: a plain wait returns, a reset goes on. -/
def conclude (t : Task) (panicked resets : Bool) : CallStep :=
  if resets then .moved t (.idling panicked) else .returned t (outcome panicked)

/-- Whether the job ran to its end, as far as the state shows. -/
def hasEnded (t : Task) : Bool :=
  match t.state with
  | .idle | .joining => false
  | .running worker => (t.exit? worker).isSome
  | .finished => true

/-- One step of a call of the thread `caller`. -/
def step (t : Task) (caller : ThreadId) : CallPoint → CallStep
  | .starting => .returned (if t.state = .idle then t.spawn else t) .ok
  | .asking => .returned t (.answer t.hasEnded)
  | .checking resets =>
    if t.known = some caller then t.conclude false resets else .moved t (.looking resets)
  | .looking resets =>
    match t.state with
    | .running worker => .moved { t with state := .joining } (.waiting worker resets)
    | .joining => .blocked
    | .idle | .finished => t.conclude false resets
  | .waiting worker resets =>
    match t.exit? worker with
    | some panicked => .moved t (.storing panicked resets)
    | none => .blocked
  | .storing panicked resets => { t with state := .finished }.conclude panicked resets
  | .idling panicked => .moved { t with state := .idle } (.forgetting panicked)
  | .forgetting panicked => .returned { t with known := none } (outcome panicked)

theorem rank_step_lt {t t' : Task} {caller : ThreadId} {p p' : CallPoint}
    (h : t.step caller p = .moved t' p') : p'.rank < p.rank := by
  cases p <;> simp only [step, conclude] at h <;> grind [CallPoint.rank]

/-- Steps of a call until it returns or cannot go on. -/
def proceed (t : Task) (caller : ThreadId) (p : CallPoint) : Task × (CallPoint ⊕ CallResult) :=
  match h : t.step caller p with
  | .blocked => (t, .inl p)
  | .returned t' result => (t', .inr result)
  | .moved t' p' =>
    have := rank_step_lt h
    t'.proceed caller p'
termination_by p.rank

/-- The state as it is shown for debugging. -/
def stateText (t : Task) : String :=
  match t.state with
  | .idle => "Idle"
  | .running _ => "Running(JoinHandle \x7b .. \x7d)"
  | .joining => "Joining"
  | .finished => "Finished"

/-- The task as it is shown for debugging. -/
def debugText (t : Task) : String :=
  "BackgroundTask \x7b name: " ++ Text.quoted t.name ++ ", state: Mutex \x7b data: " ++
    t.stateText ++ ", poisoned: false, .. \x7d, .. \x7d"

end Task

end AssetDecl
