import AssetDecl.Task
import Mathlib.Data.List.Induction
import Mathlib.Logic.Function.Basic

/-!
# Interleaved calls of a task

A `SharedTask` is a task that any number of threads call, its own workers among them. It moves by
single steps of calls and of workers, in any order. There is never more than one worker that has not
exited, unless a worker has reset its own task, or a start has made a worker between the wait of a
reset and the moment at which that reset makes the task idle (`live_unique_or_careless`). Either is
enough for two (`two_workers_live`).
-/

namespace AssetDecl

/-! ## Calls of several threads -/

/-- What a thread may call. -/
inductive CallKind where
  | start
  | wait
  | reset
  /-- Asks whether the job has ended. -/
  | ask
  deriving DecidableEq, Repr

/-- Where a call begins. -/
def CallKind.entry : CallKind → CallPoint
  | start => .starting
  | wait => .checking false
  | reset => .checking true
  | ask => .asking

/-- What is called, from where the call stands. -/
def CallPoint.kind : CallPoint → CallKind
  | starting => .start
  | asking => .ask
  | checking resets | looking resets | waiting _ resets | storing _ resets =>
    bif resets then .reset else .wait
  | idling _ | forgetting _ => .reset

theorem CallKind.kind_entry (kind : CallKind) : kind.entry.kind = kind := by
  cases kind <;> rfl

/-- What has happened to a task. -/
inductive TaskNote where
  | called (caller : ThreadId) (kind : CallKind)
  /-- The caller has become the one to wait for the exit of a worker. -/
  | took (caller worker : ThreadId)
  | returned (caller : ThreadId) (kind : CallKind) (result : CallResult)
  | entered (worker : ThreadId)
  | exited (worker : ThreadId) (panicked : Bool)
  deriving DecidableEq, Repr

/-- A task and where the calls of its threads stand. A thread makes one call at a time. -/
structure SharedTask where
  task : Task
  /-- The threads below this number are no workers. -/
  firstWorker : ThreadId
  calls : ThreadId → Option CallPoint := fun _ => none
  /-- What has happened so far, oldest first. -/
  notes : List TaskNote := []

namespace Task

/-- A worker has been made and has not exited. -/
def Live (t : Task) (worker : ThreadId) : Prop :=
  t.workers[worker]? = some .spawned ∨ t.workers[worker]? = some .alive

instance (t : Task) (worker : ThreadId) : Decidable (t.Live worker) :=
  inferInstanceAs (Decidable (_ ∨ _))

end Task

namespace SharedTask

/-- A new task of some threads. -/
def fresh (name : String) (threads : Nat) : SharedTask :=
  { task := { name, nextWorker := threads }, firstWorker := threads }

/-- Whether a thread is there to make a call: it is no worker, or one that runs the job. -/
def CanCall (s : SharedTask) (caller : ThreadId) : Prop :=
  caller < s.firstWorker ∨ s.task.workers[caller]? = some .alive

instance (s : SharedTask) (caller : ThreadId) : Decidable (s.CanCall caller) :=
  inferInstanceAs (Decidable (_ ∨ _))

/-! ## Moves -/

inductive Move where
  | call (caller : ThreadId) (kind : CallKind)
  /-- The call of a thread takes one step. -/
  | step (caller : ThreadId)
  | enter (worker : ThreadId)
  | exit (worker : ThreadId) (panicked : Bool)
  deriving DecidableEq, Repr

/-- The shared task with one call changed, or ended by `none`. -/
def withCall (s : SharedTask) (caller : ThreadId) (point : Option CallPoint) (task : Task)
    (notes : List TaskNote) : SharedTask :=
  { s with task, calls := Function.update s.calls caller point, notes := s.notes ++ notes }

/-- What holds of the other calls and of the new one holds of all. -/
theorem forall_withCall {s : SharedTask} {caller : ThreadId} {x : Option CallPoint} {task : Task}
    {notes : List TaskNote} {P : ThreadId → CallPoint → Prop}
    (others : ∀ d other, d ≠ caller → s.calls d = some other → P d other)
    (own : ∀ point, x = some point → P caller point) (d : ThreadId) (point : CallPoint)
    (hd : (s.withCall caller x task notes).calls d = some point) : P d point := by
  by_cases heq : d = caller
  · subst heq
    exact own point (by simpa [withCall] using hd)
  · exact others d point heq (by simpa [withCall, heq] using hd)

/-- Begins a call of a thread that is making none. -/
def call (s : SharedTask) (caller : ThreadId) (kind : CallKind) : SharedTask :=
  if s.calls caller = none ∧ s.CanCall caller then
    s.withCall caller (some kind.entry) s.task [.called caller kind]
  else s

/-- What is noted when a call moves on to a point. -/
def notesAt (caller : ThreadId) : CallPoint → List TaskNote
  | .waiting worker _ => [.took caller worker]
  | _ => []

def step (s : SharedTask) (caller : ThreadId) : SharedTask :=
  match s.calls caller with
  | none => s
  | some point =>
    match s.task.step caller point with
    | .blocked => s
    | .moved task next => s.withCall caller (some next) task (notesAt caller next)
    | .returned task result =>
      s.withCall caller none task [.returned caller point.kind result]

/-- A worker that has been made enters the job. -/
def enter (s : SharedTask) (worker : ThreadId) : SharedTask :=
  if s.task.workers[worker]? = some .spawned then
    { s with task := s.task.enter worker, notes := s.notes ++ [.entered worker] }
  else s

/-- A worker that is making no call ends the job and exits. -/
def exit (s : SharedTask) (worker : ThreadId) (panicked : Bool) : SharedTask :=
  if s.task.workers[worker]? = some .alive ∧ s.calls worker = none then
    { s with task := s.task.exit worker panicked, notes := s.notes ++ [.exited worker panicked] }
  else s

/-- The task after a move. What is not possible changes nothing. -/
def perform (s : SharedTask) : Move → SharedTask
  | .call caller kind => s.call caller kind
  | .step caller => s.step caller
  | .enter worker => s.enter worker
  | .exit worker panicked => s.exit worker panicked

/-- What a task comes to by some moves. -/
def run (s : SharedTask) (moves : List Move) : SharedTask :=
  moves.foldl perform s

theorem run_concat (s : SharedTask) (moves : List Move) (m : Move) :
    s.run (moves ++ [m]) = (s.run moves).perform m :=
  List.foldl_append

end SharedTask

/-! ## What a step can do -/

namespace SharedTask

variable {s : SharedTask} {caller : ThreadId}

/-- The ways in which a call of a thread can take a step, and what each comes to. -/
inductive Steps (s : SharedTask) (caller : ThreadId) : SharedTask → Prop where
  /-- There is no call, or it has to wait. -/
  | stay : Steps s caller s
  | spawn (hcall : s.calls caller = some .starting) (hstate : s.task.state = .idle) :
      Steps s caller (s.withCall caller none s.task.spawn [.returned caller .start .ok])
  | started (hcall : s.calls caller = some .starting) (hstate : s.task.state ≠ .idle) :
      Steps s caller (s.withCall caller none s.task [.returned caller .start .ok])
  | answered (hcall : s.calls caller = some .asking) :
      Steps s caller
        (s.withCall caller none s.task [.returned caller .ask (.answer s.task.hasEnded)])
  /-- The worker itself does not wait. -/
  | ownWait (hcall : s.calls caller = some (.checking false))
      (hknown : s.task.known = some caller) :
      Steps s caller (s.withCall caller none s.task [.returned caller .wait .ok])
  | ownReset (hcall : s.calls caller = some (.checking true))
      (hknown : s.task.known = some caller) :
      Steps s caller (s.withCall caller (some (.idling false)) s.task [])
  | checked {resets : Bool} (hcall : s.calls caller = some (.checking resets))
      (hknown : s.task.known ≠ some caller) :
      Steps s caller (s.withCall caller (some (.looking resets)) s.task [])
  | took {resets : Bool} {worker : ThreadId} (hcall : s.calls caller = some (.looking resets))
      (hstate : s.task.state = .running worker) :
      Steps s caller
        (s.withCall caller (some (.waiting worker resets)) { s.task with state := .joining }
          [.took caller worker])
  | waitOver (hcall : s.calls caller = some (.looking false))
      (hstate : s.task.state = .idle ∨ s.task.state = .finished) :
      Steps s caller (s.withCall caller none s.task [.returned caller .wait .ok])
  | resetOver (hcall : s.calls caller = some (.looking true))
      (hstate : s.task.state = .idle ∨ s.task.state = .finished) :
      Steps s caller (s.withCall caller (some (.idling false)) s.task [])
  | exited {resets panicked : Bool} {worker : ThreadId}
      (hcall : s.calls caller = some (.waiting worker resets))
      (hexit : s.task.exit? worker = some panicked) :
      Steps s caller (s.withCall caller (some (.storing panicked resets)) s.task [])
  | waitStored {panicked : Bool} (hcall : s.calls caller = some (.storing panicked false)) :
      Steps s caller
        (s.withCall caller none { s.task with state := .finished }
          [.returned caller .wait (Task.outcome panicked)])
  | resetStored {panicked : Bool} (hcall : s.calls caller = some (.storing panicked true)) :
      Steps s caller
        (s.withCall caller (some (.idling panicked)) { s.task with state := .finished } [])
  | idled {panicked : Bool} (hcall : s.calls caller = some (.idling panicked)) :
      Steps s caller
        (s.withCall caller (some (.forgetting panicked)) { s.task with state := .idle } [])
  | forgot {panicked : Bool} (hcall : s.calls caller = some (.forgetting panicked)) :
      Steps s caller
        (s.withCall caller none { s.task with known := none }
          [.returned caller .reset (Task.outcome panicked)])

theorem steps_step (s : SharedTask) (caller : ThreadId) : s.Steps caller (s.step caller) := by
  unfold step
  cases hcall : s.calls caller with
  | none => exact .stay
  | some point =>
    cases point with
    | starting =>
      by_cases hstate : s.task.state = .idle
      · simpa [Task.step, CallPoint.kind, hstate] using Steps.spawn hcall hstate
      · simpa [Task.step, CallPoint.kind, hstate] using Steps.started hcall hstate
    | asking => exact .answered hcall
    | checking resets =>
      by_cases hknown : s.task.known = some caller
      · cases resets
        · simpa [Task.step, Task.conclude, Task.outcome, CallPoint.kind, hknown] using
            Steps.ownWait hcall hknown
        · simpa [Task.step, Task.conclude, hknown, notesAt] using Steps.ownReset hcall hknown
      · simpa [Task.step, hknown, notesAt] using Steps.checked hcall hknown
    | looking resets =>
      cases hstate : s.task.state with
      | running worker => simpa [Task.step, hstate, notesAt] using Steps.took hcall hstate
      | joining => simpa [Task.step, hstate] using Steps.stay
      | idle =>
        cases resets
        · simpa [Task.step, Task.conclude, Task.outcome, CallPoint.kind, hstate] using
            Steps.waitOver hcall (.inl hstate)
        · simpa [Task.step, Task.conclude, hstate, notesAt] using
            Steps.resetOver hcall (.inl hstate)
      | finished =>
        cases resets
        · simpa [Task.step, Task.conclude, Task.outcome, CallPoint.kind, hstate] using
            Steps.waitOver hcall (.inr hstate)
        · simpa [Task.step, Task.conclude, hstate, notesAt] using
            Steps.resetOver hcall (.inr hstate)
    | waiting worker resets =>
      cases hexit : s.task.exit? worker with
      | none => simpa [Task.step, hexit] using Steps.stay
      | some panicked => simpa [Task.step, hexit, notesAt] using Steps.exited hcall hexit
    | storing panicked resets =>
      cases resets
      · exact .waitStored hcall
      · exact .resetStored hcall
    | idling panicked => exact .idled hcall
    | forgetting panicked => exact .forgot hcall

end SharedTask

/-! ## Who is responsible for the workers -/

namespace CallPoint

/-- The call has taken a worker and not told of its exit yet. -/
def Joins : CallPoint → Prop
  | waiting _ _ | storing _ _ => True
  | _ => False

theorem not_joins_entry (kind : CallKind) : ¬ kind.entry.Joins := by
  cases kind <;> exact id

end CallPoint

namespace Task

variable {t : Task}

/-- At most one worker has not exited, and the state tells which one it may be. -/
def Tracks (t : Task) : Prop :=
  match t.state with
  | .idle | .finished => ∀ w, ¬ t.Live w
  | .running worker => ∀ w, t.Live w → w = worker
  | .joining => ∀ v w, t.Live v → t.Live w → v = w

/-- What a call relies on at its point. -/
def Backs (t : Task) : CallPoint → Prop
  | .waiting worker _ => t.state = .joining ∧ ∀ w, t.Live w → w = worker
  | .storing _ _ => t.state = .joining ∧ ∀ w, ¬ t.Live w
  | .idling _ => t.state = .idle ∨ t.state = .finished
  | _ => True

theorem life_spawn (w : ThreadId) :
    t.spawn.workers[w]? = if w = t.nextWorker then some .spawned else t.workers[w]? := by
  simp only [spawn, Std.ExtTreeMap.getElem?_insert, Nat.compare_eq_eq, @eq_comm _ _ w]

theorem life_enter (worker w : ThreadId) :
    (t.enter worker).workers[w]? = if w = worker then some .alive else t.workers[w]? := by
  simp only [enter, Std.ExtTreeMap.getElem?_insert, Nat.compare_eq_eq, @eq_comm _ _ w]

theorem life_exit (worker w : ThreadId) (panicked : Bool) :
    (t.exit worker panicked).workers[w]? =
      if w = worker then some (.exited panicked) else t.workers[w]? := by
  simp only [exit, Std.ExtTreeMap.getElem?_insert, Nat.compare_eq_eq, @eq_comm _ _ w]

theorem live_spawn {w : ThreadId} : t.spawn.Live w ↔ w = t.nextWorker ∨ t.Live w := by
  unfold Live
  rw [life_spawn]
  grind

theorem live_enter {worker w : ThreadId} (h : t.Live worker) :
    (t.enter worker).Live w ↔ t.Live w := by
  unfold Live at h ⊢
  rw [life_enter]
  grind

theorem live_exit {worker w : ThreadId} {panicked : Bool} :
    (t.exit worker panicked).Live w ↔ w ≠ worker ∧ t.Live w := by
  unfold Live
  rw [life_exit]
  grind

theorem not_live_of_exit? {worker : ThreadId} {panicked : Bool}
    (h : t.exit? worker = some panicked) : ¬ t.Live worker := by
  unfold exit? at h
  unfold Live
  grind

theorem Tracks.live_unique (h : t.Tracks) {v w : ThreadId} (hv : t.Live v) (hw : t.Live w) :
    v = w := by
  unfold Tracks at h
  split at h
  · exact absurd hv (h v)
  · exact absurd hv (h v)
  · rw [h v hv, h w hw]
  · exact h v w hv hw

/-- Fewer workers are tracked as well. -/
theorem Tracks.of_live {t' : Task} (h : t.Tracks) (hstate : t'.state = t.state)
    (hlive : ∀ w, t'.Live w → t.Live w) : t'.Tracks := by
  unfold Tracks at h ⊢
  rw [hstate]
  split at h <;> grind

theorem Backs.of_live {t' : Task} {point : CallPoint} (h : t.Backs point)
    (hstate : t'.state = t.state) (hlive : ∀ w, t'.Live w → t.Live w) : t'.Backs point := by
  cases point <;> simp only [Backs, hstate] at h ⊢ <;> grind

end Task

namespace SharedTask

variable {s : SharedTask} {caller : ThreadId}

/-- For each worker that has not exited one call or the state is responsible. -/
structure Guarded (s : SharedTask) : Prop where
  tracks : s.task.Tracks
  backs : ∀ c point, s.calls c = some point → s.task.Backs point
  alone : ∀ c d point other, s.calls c = some point → point.Joins →
    s.calls d = some other → other.Joins → c = d
  resets : ∀ c point, s.calls c = some point → point.kind = .reset → c < s.firstWorker
  known : ∀ w, s.task.known = some w → s.firstWorker ≤ w
  numbered : ∀ w life, s.task.workers[w]? = some life → s.firstWorker ≤ w
  next : s.firstWorker ≤ s.task.nextWorker

theorem guarded_fresh (name : String) (threads : Nat) : (fresh name threads).Guarded := by
  constructor <;> simp [fresh, Task.Tracks, Task.Live]

theorem Guarded.withCall (h : s.Guarded) {x : Option CallPoint} {t : Task} {notes : List TaskNote}
    (tracks : t.Tracks)
    (others : ∀ d other, d ≠ caller → s.calls d = some other → t.Backs other)
    (own : ∀ point, x = some point → t.Backs point ∧
      (point.kind = .reset → caller < s.firstWorker) ∧
      (point.Joins → ∀ d other, d ≠ caller → s.calls d = some other → ¬ other.Joins))
    (known : ∀ w, t.known = some w → s.task.known = some w)
    (numbered : ∀ w life, t.workers[w]? = some life → s.firstWorker ≤ w)
    (next : s.firstWorker ≤ t.nextWorker) : (s.withCall caller x t notes).Guarded where
  tracks := tracks
  backs := forall_withCall others fun point hx => (own point hx).1
  alone c d point other hc hpoint hd hother := by
    revert d other
    refine forall_withCall (fun d other hdc hd hother => ?_) (fun other hx hother => ?_)
    · revert hpoint
      refine forall_withCall (P := fun c point => point.Joins → c = d) ?_ ?_ c point hc
      · exact fun c point _ hc hpoint => h.alone c d point other hc hpoint hd hother
      · exact fun point hx hpoint => absurd hother ((own point hx).2.2 hpoint d other hdc hd)
    · revert hpoint
      refine forall_withCall (P := fun c point => point.Joins → c = caller) ?_ ?_ c point hc
      · exact fun c point hcc hc hpoint => absurd hpoint ((own other hx).2.2 hother c point hcc hc)
      · exact fun _ _ _ => rfl
  resets := forall_withCall (fun d other _ hd => h.resets d other hd)
    fun point hx => (own point hx).2.1
  known w hw := h.known w (known w hw)
  numbered := numbered
  next := next

theorem Guarded.call (h : s.Guarded) (kind : CallKind)
    (hkind : kind = .reset → s.CanCall caller → caller < s.firstWorker) :
    (s.call caller kind).Guarded := by
  unfold SharedTask.call
  split
  · rename_i hcan
    refine h.withCall h.tracks (fun d other _ hd => h.backs d other hd) ?_ (fun _ => id)
      h.numbered h.next
    intro point heq
    obtain rfl := Option.some.inj heq
    exact ⟨by cases kind <;> trivial,
      fun hreset => hkind (kind.kind_entry.symm.trans hreset) hcan.2,
      fun hjoins => absurd hjoins (CallPoint.not_joins_entry kind)⟩
  · exact h

/-! ### Steps of calls -/

/-- A step that changes nothing but the call. -/
theorem Guarded.pass (h : s.Guarded) {x : Option CallPoint} {notes : List TaskNote}
    (own : ∀ point, x = some point → s.task.Backs point ∧
      (point.kind = .reset → caller < s.firstWorker) ∧
      (point.Joins → ∀ d other, d ≠ caller → s.calls d = some other → ¬ other.Joins)) :
    (s.withCall caller x s.task notes).Guarded :=
  h.withCall h.tracks (fun d other _ hd => h.backs d other hd) own (fun _ => id) h.numbered h.next

theorem Guarded.ends (h : s.Guarded) {notes : List TaskNote} :
    (s.withCall caller none s.task notes).Guarded :=
  h.pass fun _ hpoint => absurd hpoint (by simp)

/-- A call stands at `joins` only while the state says so. -/
theorem Guarded.not_joins (h : s.Guarded) (hstate : s.task.state ≠ .joining) {d : ThreadId}
    {other : CallPoint} (hd : s.calls d = some other) : ¬ other.Joins := by
  have hbacks := h.backs d other hd
  cases other with
  | waiting worker resets => exact absurd hbacks.1 hstate
  | storing panicked resets => exact absurd hbacks.1 hstate
  | _ => exact id

theorem Guarded.spawn (h : s.Guarded) {notes : List TaskNote} (hstate : s.task.state = .idle)
    (hidling : ∀ d panicked, s.calls d ≠ some (.idling panicked)) :
    (s.withCall caller none s.task.spawn notes).Guarded := by
  have hnone : ∀ w, ¬ s.task.Live w := by simpa [Task.Tracks, hstate] using h.tracks
  refine h.withCall ?_ ?_ (fun _ hpoint => absurd hpoint (by simp)) (fun _ => id) ?_
    (Nat.le_succ_of_le h.next)
  · intro w hw
    exact (Task.live_spawn.1 hw).resolve_right (hnone w)
  · intro d other _ hd
    have hnot := h.not_joins (by simp [hstate]) hd
    cases other with
    | waiting | storing => exact absurd trivial hnot
    | idling panicked => exact absurd hd (hidling d panicked)
    | _ => trivial
  · intro w life hw
    rw [Task.life_spawn] at hw
    split at hw
    · rename_i heq
      exact heq ▸ h.next
    · exact h.numbered w life hw

theorem Guarded.took (h : s.Guarded) {resets : Bool} {worker : ThreadId}
    {notes : List TaskNote} (hcall : s.calls caller = some (.looking resets))
    (hstate : s.task.state = .running worker) :
    (s.withCall caller (some (.waiting worker resets)) { s.task with state := .joining }
      notes).Guarded := by
  have hlive : ∀ w, s.task.Live w → w = worker := by simpa [Task.Tracks, hstate] using h.tracks
  have hnot : ∀ d other, s.calls d = some other → ¬ other.Joins :=
    fun d other hd => h.not_joins (by simp [hstate]) hd
  refine h.withCall ?_ ?_ ?_ (fun _ => id) h.numbered h.next
  · exact fun v w hv hw => (hlive v hv).trans (hlive w hw).symm
  · intro d other _ hd
    have hnot := hnot d other hd
    have hbacks := h.backs d other hd
    cases other with
    | waiting | storing => exact absurd trivial hnot
    | idling panicked => simp [Task.Backs, hstate] at hbacks
    | _ => trivial
  · intro point heq
    obtain rfl := Option.some.inj heq
    exact ⟨⟨rfl, hlive⟩, fun hreset => h.resets caller _ hcall hreset,
      fun _ d other _ hd => hnot d other hd⟩

theorem Guarded.exited (h : s.Guarded) {resets panicked : Bool}
    {worker : ThreadId} {notes : List TaskNote}
    (hcall : s.calls caller = some (.waiting worker resets))
    (hexit : s.task.exit? worker = some panicked) :
    (s.withCall caller (some (.storing panicked resets)) s.task notes).Guarded := by
  have hbacks : s.task.Backs (.waiting worker resets) := h.backs caller _ hcall
  refine h.pass fun point heq => ?_
  obtain rfl := Option.some.inj heq
  refine ⟨⟨hbacks.1, fun w hw => ?_⟩, fun hreset => h.resets caller _ hcall hreset,
    fun _ d other hne hd hjoins => ?_⟩
  · exact Task.not_live_of_exit? hexit (hbacks.2 w hw ▸ hw)
  · exact hne (h.alone d caller other _ hd hjoins hcall trivial)

/-- The end of a wait is told: no worker is left, and no other call has taken one. -/
theorem Guarded.stored (h : s.Guarded) {resets panicked : Bool}
    {x : Option CallPoint} {notes : List TaskNote}
    (hcall : s.calls caller = some (.storing panicked resets))
    (hx : ∀ point, x = some point → point = .idling panicked ∧ resets = true) :
    (s.withCall caller x { s.task with state := .finished } notes).Guarded := by
  have hbacks : s.task.Backs (.storing panicked resets) := h.backs caller _ hcall
  refine h.withCall (t := { s.task with state := .finished }) hbacks.2 ?_ ?_ (fun _ => id)
    h.numbered h.next
  · intro d other hne hd
    have hother := h.backs d other hd
    have hnot : ¬ other.Joins :=
      fun hjoins => hne (h.alone d caller other _ hd hjoins hcall trivial)
    cases other with
    | waiting | storing => exact absurd trivial hnot
    | idling panicked' => exact .inr rfl
    | _ => trivial
  · intro point heq
    obtain ⟨rfl, rfl⟩ := hx point heq
    exact ⟨.inr rfl, fun _ => h.resets caller _ hcall rfl, False.elim⟩

theorem Guarded.idled (h : s.Guarded) {panicked : Bool} {notes : List TaskNote}
    (hcall : s.calls caller = some (.idling panicked)) :
    (s.withCall caller (some (.forgetting panicked)) { s.task with state := .idle }
      notes).Guarded := by
  have hbacks : s.task.state = .idle ∨ s.task.state = .finished := h.backs caller _ hcall
  have hnone : ∀ w, ¬ s.task.Live w := by
    rcases hbacks with hstate | hstate <;> simpa [Task.Tracks, hstate] using h.tracks
  refine h.withCall (t := { s.task with state := .idle }) hnone ?_ ?_ (fun _ => id) h.numbered
    h.next
  · intro d other _ hd
    have hnot := h.not_joins (by rcases hbacks with hstate | hstate <;> simp [hstate]) hd
    cases other with
    | waiting | storing => exact absurd trivial hnot
    | idling panicked' => exact .inl rfl
    | _ => trivial
  · intro point heq
    obtain rfl := Option.some.inj heq
    exact ⟨trivial, fun _ => h.resets caller _ hcall rfl, False.elim⟩

theorem Guarded.forgot (h : s.Guarded) {notes : List TaskNote} :
    (s.withCall caller none { s.task with known := none } notes).Guarded := by
  refine h.withCall (t := { s.task with known := none }) h.tracks ?_
    (fun _ hpoint => absurd hpoint (by simp)) (fun _ hw => absurd hw (by simp)) h.numbered h.next
  exact fun d other _ hd => (h.backs d other hd).of_live rfl fun _ => id

theorem Guarded.step (h : s.Guarded)
    (hidling : s.calls caller = some .starting → s.task.state = .idle →
      ∀ d panicked, s.calls d ≠ some (.idling panicked)) :
    (s.step caller).Guarded := by
  have hsteps := steps_step s caller
  generalize s.step caller = s' at hsteps ⊢
  cases hsteps with
  | stay => exact h
  | spawn hcall hstate => exact h.spawn hstate (hidling hcall hstate)
  | started | answered | ownWait | waitOver => exact h.ends
  | ownReset hcall hknown =>
    exact absurd (h.known caller hknown) (Nat.not_le.2 (h.resets caller _ hcall rfl))
  | checked hcall _ =>
    refine h.pass fun point heq => ?_
    obtain rfl := Option.some.inj heq
    exact ⟨trivial, fun hreset => h.resets caller _ hcall hreset, False.elim⟩
  | took hcall hstate => exact h.took hcall hstate
  | resetOver hcall hstate =>
    refine h.pass fun point heq => ?_
    obtain rfl := Option.some.inj heq
    exact ⟨hstate, fun _ => h.resets caller _ hcall rfl, False.elim⟩
  | exited hcall hexit => exact h.exited hcall hexit
  | waitStored hcall => exact h.stored hcall fun _ heq => absurd heq (by simp)
  | resetStored hcall => exact h.stored hcall fun _ heq => ⟨(Option.some.inj heq).symm, rfl⟩
  | idled hcall => exact h.idled hcall
  | forgot => exact h.forgot

theorem Guarded.enter (h : s.Guarded) (worker : ThreadId) : (s.enter worker).Guarded := by
  unfold SharedTask.enter
  split
  · rename_i hspawned
    have hlive : ∀ w, (s.task.enter worker).Live w → s.task.Live w :=
      fun w => (Task.live_enter (.inl hspawned)).1
    exact {
      tracks := h.tracks.of_live rfl hlive
      backs := fun c point hc => (h.backs c point hc).of_live rfl hlive
      alone := h.alone
      resets := h.resets
      known := fun w hw => Option.some.inj hw ▸ h.numbered _ _ hspawned
      numbered := by
        intro w life hw
        rw [Task.life_enter] at hw
        split at hw
        · rename_i heq
          exact h.numbered _ _ (heq ▸ hspawned)
        · exact h.numbered w life hw
      next := h.next }
  · exact h

theorem Guarded.exit (h : s.Guarded) (worker : ThreadId) (panicked : Bool) :
    (s.exit worker panicked).Guarded := by
  unfold SharedTask.exit
  split
  · rename_i hexits
    have hlive : ∀ w, (s.task.exit worker panicked).Live w → s.task.Live w :=
      fun w hw => (Task.live_exit.1 hw).2
    exact {
      tracks := h.tracks.of_live rfl hlive
      backs := fun c point hc => (h.backs c point hc).of_live rfl hlive
      alone := h.alone
      resets := h.resets
      known := h.known
      numbered := by
        intro w life hw
        rw [Task.life_exit] at hw
        split at hw
        · rename_i heq
          exact h.numbered _ _ (heq ▸ hexits.1)
        · exact h.numbered w life hw
      next := h.next }
  · exact h

/-! ## Careless moves -/

/-- A worker resets its own task, or a start makes a worker while a reset is about to make the task
idle. -/
def Careless (s : SharedTask) : Move → Prop
  | .call caller kind => kind = .reset ∧ s.task.workers[caller]? = some .alive
  | .step caller => s.task.state = .idle ∧ s.calls caller = some .starting ∧
      ∃ d panicked, s.calls d = some (.idling panicked)
  | .enter _ | .exit _ _ => False

theorem Guarded.perform {m : Move} (h : s.Guarded) (hm : ¬ s.Careless m) :
    (s.perform m).Guarded := by
  cases m with
  | call caller kind =>
    exact h.call kind fun hkind hcan => hcan.resolve_right fun halive => hm ⟨hkind, halive⟩
  | step caller =>
    exact h.step fun hcall hstate d panicked hd => hm ⟨hstate, hcall, d, panicked, hd⟩
  | enter worker => exact h.enter worker
  | exit worker panicked => exact h.exit worker panicked

/-- Whatever the moves, a worker that has not exited is the only one, or a move was careless. -/
theorem live_unique_or_careless (name : String) (threads : Nat) (moves : List Move) :
    (∀ v w, ((fresh name threads).run moves).task.Live v →
      ((fresh name threads).run moves).task.Live w → v = w) ∨
    ∃ before m after, moves = before ++ m :: after ∧
      ((fresh name threads).run before).Careless m := by
  suffices h : ((fresh name threads).run moves).Guarded ∨ ∃ before m after,
      moves = before ++ m :: after ∧ ((fresh name threads).run before).Careless m from
    h.imp_left fun h _ _ => h.tracks.live_unique
  induction moves using List.reverseRecOn with
  | nil => exact .inl (guarded_fresh name threads)
  | append_singleton moves m ih =>
    rcases ih with ih | ⟨before, m', after, rfl, hcareless⟩
    · by_cases hm : ((fresh name threads).run moves).Careless m
      · exact .inr ⟨moves, m, [], rfl, hm⟩
      · rw [run_concat]
        exact .inl (ih.perform hm)
    · exact .inr ⟨before, m', after ++ [m], by simp, hcareless⟩

/-- A worker that resets and starts its own task runs beside the next one. So does a worker that a
thread has started before the reset of another thread makes the task idle. -/
theorem two_workers_live :
    let own := (fresh "scan" 1).run
      [.call 0 .start, .step 0, .enter 1, .call 1 .reset, .step 1, .step 1, .step 1,
        .call 1 .start, .step 1, .enter 2]
    let overtaken := (fresh "scan" 2).run
      [.call 0 .reset, .step 0, .step 0, .call 1 .start, .step 1, .enter 2, .step 0, .step 0,
        .call 0 .start, .step 0, .enter 3]
    (own.task.Live 1 ∧ own.task.Live 2) ∧ overtaken.task.Live 2 ∧ overtaken.task.Live 3 := by
  decide +kernel

end SharedTask

end AssetDecl
