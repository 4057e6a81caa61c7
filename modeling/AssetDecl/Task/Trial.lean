import AssetDecl.Failure
import AssetDecl.Task

/-!
# Trials of a task

One task is used step by step from a main thread, with jobs that are prescribed for each run. A
gated job waits to be released, and while it does a second thread may wait for it.
-/

namespace AssetDecl

/-- What a run of the job does. -/
inductive Job where
  | plain
  | panics
  /-- Waits for its release. -/
  | gated (panics : Bool)
  /-- Waits for its own task and asks whether it has finished. -/
  | selfWaiting
  deriving DecidableEq, Repr

def Job.label : Job → String
  | plain => "plain"
  | panics => "panic"
  | gated false => "gate"
  | gated true => "gate_panic"
  | selfWaiting => "self"

/-- The gated run that is not released yet. -/
structure Gate where
  worker : ThreadId
  panics : Bool
  /-- The second thread, once it waits, and where it stands. -/
  waiter : Option (ThreadId × CallPoint) := none

structure Trial where
  task : Task
  /-- Jobs of the runs to come; then all are plain. -/
  jobs : List Job
  gate : Option Gate := none
  waiters : List (Except Failure Unit) := []
  log : List String := []

/-- What a step of a trial answers. -/
inductive TrialAnswer where
  | done
  | failed (error : Failure)
  | wouldBlock
  | nothing
  | truth (b : Bool)
  | shown (text : String)

namespace Trial

/-- The threads that are no workers. -/
def mainThread : ThreadId := 0
def waiterThread : ThreadId := 1

def begin (name : String) (jobs : List Job) : Trial :=
  { task := { name, nextWorker := 2 }, jobs }

def note (t : Trial) (line : String) : Trial :=
  { t with log := t.log ++ [line] }

def toExcept (t : Trial) : CallResult → Except Failure Unit
  | .panicked => .error (.panickedWorker t.task.name)
  | _ => .ok ()

/-- Runs the job of a new worker as far as it goes. -/
def runJob (t : Trial) (worker : ThreadId) : Trial :=
  let job := t.jobs.headD .plain
  let t := { t with jobs := t.jobs.tail, task := t.task.enter worker }.note ("run " ++ job.label)
  match job with
  | .plain => { t with task := t.task.exit worker false }
  | .panics => { t with task := t.task.exit worker true }
  | .gated panics => { t with gate := some { worker, panics } }
  | .selfWaiting =>
    let (task, result) := t.task.proceed worker (.checking false)
    let waited := match result with
      | .inr .ok => "ok"
      | _ => "failed"
    let (task, asked) := task.proceed worker .asking
    let finished := match asked with
      | .inr (.answer b) => toString b
      | _ => "unknown"
    { t with task := task.exit worker false }.note
      ("self " ++ waited ++ ", finished " ++ finished)

def start (t : Trial) : Trial × TrialAnswer :=
  let worker := t.task.nextWorker
  let (task, _) := t.task.proceed mainThread .starting
  let t := { t with task }
  (if task.nextWorker = worker then t else t.runJob worker, .done)

/-- A wait or a reset of the main thread, refused while a gated run is not released. -/
def waitAt (t : Trial) (point : CallPoint) : Trial × TrialAnswer :=
  if t.gate.isSome then (t, .wouldBlock)
  else match t.task.proceed mainThread point with
    | (_, .inl _) => (t, .wouldBlock)
    | (task, .inr result) =>
      let t := { t with task }
      match t.toExcept result with
      | .ok _ => (t, .done)
      | .error e => (t, .failed e)

/-- Lets the gated run go on, and then the thread that waits for it. -/
def release (t : Trial) : Trial :=
  match t.gate with
  | none => t
  | some gate =>
    let t := { t with gate := none, task := t.task.exit gate.worker gate.panics }.note "released"
    match gate.waiter with
    | none => t
    | some (thread, point) =>
      let (task, result) := t.task.proceed thread point
      match result with
      | .inl _ => { t with task }
      | .inr result => { t with task, waiters := t.waiters ++ [t.toExcept result] }

/-- A second thread begins to wait, for the first time in a gated run. -/
def addWaiter (t : Trial) : Trial :=
  match t.gate with
  | some { worker, panics, waiter := none } =>
    let (task, result) := t.task.proceed waiterThread (.checking false)
    match result with
    | .inl point => { t with task, gate := some ⟨worker, panics, some (waiterThread, point)⟩ }
    | .inr _ => t
  | _ => t

/-- One step of the main thread, by name. -/
def step (t : Trial) : String → Trial × TrialAnswer
  | "start" => t.start
  | "wait" => t.waitAt (.checking false)
  | "reset" => t.waitAt (.checking true)
  | "release" => (t.release, .nothing)
  | "waiter" => (t.addWaiter, .nothing)
  | "is_finished" => (t, .truth t.task.hasEnded)
  | "name" => (t, .shown t.task.name)
  | "debug" => (t, .shown t.task.debugText)
  | _ => (t, .nothing)

/-- The end of a trial: what is gated is released, then the main thread waits once more. -/
def conclude (t : Trial) : Trial × TrialAnswer :=
  t.release.waitAt (.checking false)

end Trial

end AssetDecl
