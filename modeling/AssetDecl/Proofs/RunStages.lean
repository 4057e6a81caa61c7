import AssetDecl.Proofs.OrderlyCalls

/-!
# Stages of a run

The job of a task is entered by a worker, the worker is taken by a call that waits, and that call
tells of it when it returns. How far this has come is a `Stage`, and what the history shows of it is
read off from the stage (`Records`). Every step of an orderly call and of a worker keeps it so, and
three of them move on to another stage. Making a worker is taken never to fail.
-/

namespace AssetDecl

namespace TaskNote

/-- A worker begins or ends the job. -/
def ofRun : TaskNote → Bool
  | entered _ | exited _ _ => true
  | _ => false

/-- A call takes the worker, or is told of a panic. -/
def ofReport : TaskNote → Bool
  | took _ _ | returned _ _ .panicked => true
  | _ => false

end TaskNote

namespace CallPoint

/-- The call has not got past its look at the state. -/
def Early : CallPoint → Prop
  | starting | asking | checking _ | looking _ => True
  | _ => False

/-- The call is to tell of a worker, for whose exit it waits or of whose panic it knows. -/
def Owes : CallPoint → Prop
  | waiting _ _ | storing _ _ | idling true | forgetting true => True
  | _ => False

theorem Early.not_owes {point : CallPoint} (h : point.Early) : ¬ point.Owes := by
  cases point <;> simp_all [Early, Owes]

theorem early_entry (kind : CallKind) : kind.entry.Early := by
  cases kind <;> trivial

end CallPoint

namespace Task

variable {t : Task}

/-- What the life of a worker leaves in the history. -/
def marks (t : Task) (worker : ThreadId) : List TaskNote :=
  match t.workers[worker]? with
  | some .alive => [.entered worker]
  | some (.exited panicked) => [.entered worker, .exited worker panicked]
  | _ => []

/-- The call is to tell of the worker, and how it has exited. -/
def Tells (t : Task) (worker : ThreadId) : CallPoint → Prop
  | .waiting v _ => v = worker
  | .storing panicked _ | .idling panicked | .forgetting panicked =>
    t.exit? worker = some panicked
  | _ => False

theorem Tells.not_early {worker : ThreadId} {point : CallPoint} (h : t.Tells worker point) :
    ¬ point.Early := by
  cases point <;> simp_all [Tells, CallPoint.Early]

theorem marks_of_exit? {worker : ThreadId} {panicked : Bool}
    (h : t.exit? worker = some panicked) :
    t.marks worker = [.entered worker, .exited worker panicked] := by
  unfold exit? at h
  unfold marks
  grind

theorem marks_begin (t : Task) (worker : ThreadId) :
    ∃ panicked, t.marks worker <+: [.entered worker, .exited worker panicked] := by
  unfold marks
  split
  · exact ⟨false, by simp⟩
  · exact ⟨_, List.prefix_rfl⟩
  · exact ⟨false, by simp⟩

theorem exited_mem_marks_iff {worker v : ThreadId} {panicked : Bool} :
    TaskNote.exited v panicked ∈ t.marks worker ↔ v = worker ∧ t.exit? worker = some panicked := by
  unfold marks exit?
  split <;> grind

/-- A call waits for another one that waits for the worker, or for the worker itself. -/
theorem of_step_eq_blocked {caller : ThreadId} {point : CallPoint}
    (h : t.step caller point = .blocked) :
    (∃ resets, point = .looking resets) ∧ t.state = .joining ∨
      ∃ worker resets, point = .waiting worker resets ∧ t.exit? worker = none := by
  cases point <;> simp only [step, conclude] at h <;> grind

end Task

/-- How far the run of a period has come. -/
inductive Stage where
  | unstarted
  | started (worker : ThreadId)
  /-- A call has taken the worker and not returned yet. -/
  | taken (worker taker : ThreadId)
  | told (worker taker : ThreadId)

namespace Stage

def worker? : Stage → Option ThreadId
  | unstarted => none
  | started worker | taken worker _ | told worker _ => some worker

def taker? : Stage → Option ThreadId
  | unstarted | started _ => none
  | taken _ taker | told _ taker => some taker

/-- What the run has left in the history. -/
def run (t : Task) (stage : Stage) : List TaskNote :=
  stage.worker?.elim [] t.marks

/-- What the reports have left in the history. -/
def report (t : Task) : Stage → List TaskNote
  | unstarted | started _ => []
  | taken worker taker => [.took taker worker]
  | told worker taker =>
    .took taker worker ::
      if t.exit? worker = some true then [.returned taker .wait .panicked] else []

/-- What the task shows of the stage. -/
def Place (s : SharedTask) : Stage → Prop
  | unstarted => s.task.state = .idle
  | started worker => s.task.state = .running worker
  | taken worker taker => ∃ point, s.calls taker = some point ∧ s.task.Tells worker point
  | told worker _ => (s.task.exit? worker).isSome ∧
      (s.task.state = .finished ∨ ∃ d, s.calls d = some (.forgetting false))

theorem run_congr {t t' : Task} {stage : Stage} (h : t'.workers = t.workers) :
    stage.run t' = stage.run t := by
  have hmarks : t'.marks = t.marks := funext fun w => by rw [Task.marks, Task.marks, h]
  rw [run, run, hmarks]

theorem report_congr {t t' : Task} {stage : Stage} (h : t'.workers = t.workers) :
    stage.report t' = stage.report t := by
  have hexit : t'.exit? = t.exit? := funext fun w => by rw [Task.exit?, Task.exit?, h]
  cases stage <;> simp only [report, hexit]

end Stage

namespace SharedTask

variable {s : SharedTask} {caller : ThreadId} {p : List TaskNote} {stage : Stage}

/-! ## What the stage tells of the history -/

/-- Once a start has returned, who waits from outside returns only when the worker has exited, and
some call has taken it. -/
def Waits (firstWorker : ThreadId) (p : List TaskNote) : Prop :=
  ∀ before c kind r, before ++ [.returned c kind r] <+: p → kind = .wait ∨ kind = .reset →
    c < firstWorker → (∃ d r', .returned d .start r' ∈ before) →
    ∃ w panicked d, .exited w panicked ∈ before ∧ .took d w ∈ before

/-- The stage of the run and the history of its period so far. -/
structure Records (s : SharedTask) (p : List TaskNote) (stage : Stage) : Prop where
  place : stage.Place s
  live : ∀ w, s.task.Live w → stage.worker? = some w
  made : ∀ w, stage.worker? = some w → ∃ life, s.task.workers[w]? = some life
  outside : ∀ c, stage.taker? = some c → c < s.firstWorker
  owes : ∀ c point, s.calls c = some point → point.Owes → ∃ w, stage = .taken w c
  run : p.filter TaskNote.ofRun = stage.run s.task
  report : p.filter TaskNote.ofReport = stage.report s.task
  /-- A start that is under way has been called in this period. -/
  starting : ∀ c, s.calls c = some .starting → .called c .start ∈ p
  started : stage ≠ .unstarted → ∃ c, .called c .start ∈ p
  /-- A start that has been called is under way, until one has made the worker. -/
  called : stage = .unstarted → ∀ c, .called c .start ∈ p → ∃ d, s.calls d = some .starting
  returned : stage = .unstarted → ∀ c r, .returned c .start r ∉ p
  underWay : ∀ w c kind r, stage = .taken w c → ¬ [.took c w, .returned c kind r].Sublist p
  waits : Waits s.firstWorker p
  others : ∀ c kind r, .returned c kind r ∈ p → kind ≠ .ask → r = .ok ∨ r = .panicked

theorem took_mem_of_report {c w : ThreadId} (h : TaskNote.took c w ∈ stage.report s.task) :
    stage = .taken w c ∨ stage = .told w c := by
  cases stage <;> simp only [Stage.report] at h <;> grind

namespace Records

theorem took_mem_iff (h : s.Records p stage) {c w : ThreadId} :
    .took c w ∈ p ↔ stage = .taken w c ∨ stage = .told w c := by
  have hmem : .took c w ∈ p ↔ .took c w ∈ stage.report s.task := by
    rw [← h.report, List.mem_filter]
    simp [TaskNote.ofReport]
  rw [hmem]
  constructor
  · exact took_mem_of_report
  · rintro (rfl | rfl) <;> simp [Stage.report]

theorem exited_mem_iff (h : s.Records p stage) {w : ThreadId} {panicked : Bool} :
    .exited w panicked ∈ p ↔ stage.worker? = some w ∧ s.task.exit? w = some panicked := by
  have hmem : .exited w panicked ∈ p ↔ .exited w panicked ∈ stage.run s.task := by
    rw [← h.run, List.mem_filter]
    simp [TaskNote.ofRun]
  rw [hmem, Stage.run]
  cases stage.worker? with
  | none => simp
  | some v =>
    rw [Option.elim_some, Task.exited_mem_marks_iff, Option.some.injEq]
    grind

theorem panicked_mem_iff (h : s.Records p stage) {c : ThreadId} {kind : CallKind} :
    .returned c kind .panicked ∈ p ↔
      kind = .wait ∧ ∃ w, stage = .told w c ∧ s.task.exit? w = some true := by
  have hmem : .returned c kind .panicked ∈ p ↔
      .returned c kind .panicked ∈ stage.report s.task := by
    rw [← h.report, List.mem_filter]
    simp [TaskNote.ofReport]
  rw [hmem]
  cases stage <;> simp only [Stage.report] <;> grind

/-- When the state shows no run under way, none has begun, or it is over and has a taker. -/
theorem ended (h : s.Records p stage) (hguarded : s.Guarded)
    (hstate : s.task.state = .idle ∨ s.task.state = .finished) :
    stage = .unstarted ∨ ∃ w c panicked,
      (stage = .taken w c ∨ stage = .told w c) ∧ s.task.exit? w = some panicked := by
  have hplace := h.place
  cases stage with
  | unstarted => exact .inl rfl
  | started w =>
    have hrunning : s.task.state = .running w := hplace
    simp [hrunning] at hstate
  | taken w c =>
    obtain ⟨point, hc, htells⟩ := hplace
    have hbacks := hguarded.backs c point hc
    right
    cases point with
    | waiting v resets => simp [hbacks.1] at hstate
    | storing panicked | idling panicked | forgetting panicked =>
      exact ⟨w, c, panicked, .inl rfl, htells⟩
    | _ => exact htells.elim
  | told w c =>
    obtain ⟨panicked, hexit⟩ := Option.isSome_iff_exists.1 hplace.1
    exact .inr ⟨w, c, panicked, .inr rfl, hexit⟩

end Records

theorem Waits.concat {firstWorker : ThreadId} (h : Waits firstWorker p) {n : TaskNote}
    (hn : ∀ c kind r, n = .returned c kind r → kind = .wait ∨ kind = .reset → c < firstWorker →
      (∃ d r', .returned d .start r' ∈ p) →
      ∃ w panicked d, .exited w panicked ∈ p ∧ .took d w ∈ p) :
    Waits firstWorker (p ++ [n]) := by
  intro before c kind r hbefore hkind hc hstart
  rcases List.prefix_concat_iff.1 hbefore with heq | hearlier
  · obtain ⟨rfl, hlast⟩ := List.append_inj' heq rfl
    exact hn c kind r (List.singleton_inj.1 hlast).symm hkind hc hstart
  · exact h before c kind r hearlier hkind hc hstart

/-- The run has a taker and is over when a wait returns, provided that a start has returned. -/
theorem Records.exited_of_returned (h : s.Records p stage)
    (hended : stage = .unstarted ∨ ∃ w c panicked,
      (stage = .taken w c ∨ stage = .told w c) ∧ s.task.exit? w = some panicked)
    (hstart : ∃ d r, .returned d .start r ∈ p) :
    ∃ w panicked d, .exited w panicked ∈ p ∧ .took d w ∈ p := by
  obtain ⟨d, r, hstart⟩ := hstart
  rcases hended with hunstarted | ⟨w, c, panicked, hstage, hexit⟩
  · exact absurd hstart (h.returned hunstarted d r)
  · refine ⟨w, panicked, c, h.exited_mem_iff.2 ⟨?_, hexit⟩, h.took_mem_iff.2 hstage⟩
    rcases hstage with rfl | rfl <;> rfl

/-! ## Steps that leave the stage as it is -/

theorem pair_sublist_append {a b : TaskNote} {notes : List TaskNote}
    (h : [a, b].Sublist (p ++ notes)) : [a, b].Sublist p ∨ b ∈ notes := by
  obtain ⟨l, r, heq, hl, hr⟩ := List.sublist_append_iff.1 h
  match l with
  | [] =>
    obtain rfl : [a, b] = r := heq
    exact .inr (hr.subset (by simp))
  | [_] =>
    obtain ⟨-, rfl⟩ : _ ∧ [b] = r := by simpa using heq
    exact .inr (hr.subset (by simp))
  | x :: y :: l =>
    obtain ⟨rfl, rfl, rfl, rfl⟩ : a = x ∧ b = y ∧ l = [] ∧ r = [] := by simpa using heq
    exact .inl hl

theorem Records.withCall (h : s.Records p stage) {x : Option CallPoint} {t : Task}
    {notes : List TaskNote} (hworkers : t.workers = s.task.workers)
    (place : stage.Place (s.withCall caller x t notes))
    (owes : ∀ next, x = some next → next.Owes → ∃ w, stage = .taken w caller)
    (silent : ∀ n ∈ notes, n.ofRun = false ∧ n.ofReport = false)
    (starting : x = some .starting → .called caller .start ∈ notes)
    (called : stage = .unstarted → s.calls caller ≠ some .starting ∧
      ((∃ c, .called c .start ∈ notes) → x = some .starting))
    (returned : stage = .unstarted → ∀ c r, .returned c .start r ∉ notes)
    (underWay : ∀ w c kind r, stage = .taken w c → .returned c kind r ∉ notes)
    (waits : Waits s.firstWorker (p ++ notes))
    (others : ∀ c kind r, .returned c kind r ∈ notes → kind ≠ .ask → r = .ok ∨ r = .panicked) :
    (s.withCall caller x t notes).Records (p ++ notes) stage where
  place := place
  live w hw := by
    refine h.live w ?_
    simpa [Task.Live, SharedTask.withCall, hworkers] using hw
  made w hw := by simpa [SharedTask.withCall, hworkers] using h.made w hw
  outside := h.outside
  owes := forall_withCall (fun d other _ hd => h.owes d other hd) owes
  run := by
    have hsilent : notes.filter TaskNote.ofRun = [] :=
      List.filter_eq_nil_iff.2 fun n hn => by simp [(silent n hn).1]
    rw [List.filter_append, hsilent, List.append_nil, h.run]
    exact (Stage.run_congr hworkers).symm
  report := by
    have hsilent : notes.filter TaskNote.ofReport = [] :=
      List.filter_eq_nil_iff.2 fun n hn => by simp [(silent n hn).2]
    rw [List.filter_append, hsilent, List.append_nil, h.report]
    exact (Stage.report_congr hworkers).symm
  starting c hc := by
    rw [List.mem_append]
    by_cases hcaller : c = caller
    · subst hcaller
      exact .inr (starting (by simpa using hc))
    · exact .inl (h.starting c (by simpa [calls_withCall_of_ne hcaller] using hc))
  started hstage := (h.started hstage).imp fun c hc => List.mem_append_left _ hc
  called hstage c hc := by
    rcases List.mem_append.1 hc with hc | hc
    · obtain ⟨d, hd⟩ := h.called hstage c hc
      have hne : d ≠ caller := by
        rintro rfl
        exact (called hstage).1 hd
      exact ⟨d, by rwa [calls_withCall_of_ne hne]⟩
    · exact ⟨caller, by rw [calls_withCall_self, (called hstage).2 ⟨c, hc⟩]⟩
  returned hstage c r hc := by
    rcases List.mem_append.1 hc with hc | hc
    · exact h.returned hstage c r hc
    · exact returned hstage c r hc
  underWay w c kind r hstage hsub := by
    rcases pair_sublist_append hsub with hsub | hmem
    · exact h.underWay w c kind r hstage hsub
    · exact underWay w c kind r hstage hmem
  waits := waits
  others c kind r hc hkind := by
    rcases List.mem_append.1 hc with hc | hc
    · exact h.others c kind r hc hkind
    · exact others c kind r hc hkind

/-- A call goes on. -/
theorem Records.goOn (h : s.Records p stage) {next : CallPoint} {state : TaskState}
    (hcall : s.calls caller ≠ some .starting) (hnext : next ≠ .starting)
    (place : stage.Place (s.withCall caller (some next) { s.task with state } []))
    (owes : next.Owes → ∃ w, stage = .taken w caller) :
    (s.withCall caller (some next) { s.task with state } []).Records p stage := by
  have hrecords :
      (s.withCall caller (some next) { s.task with state } []).Records (p ++ []) stage :=
    h.withCall rfl place (fun _ hx => Option.some.inj hx ▸ owes) (by simp)
      (fun hx => absurd (Option.some.inj hx) hnext) (fun _ => ⟨hcall, by simp⟩) (by simp) (by simp)
      (by simpa using h.waits) (by simp)
  rwa [List.append_nil] at hrecords

/-- A call that has not got past its look at the state ends or goes on. -/
theorem place_withCall (h : stage.Place s) {x : Option CallPoint} {notes : List TaskNote}
    (hearly : ∀ point, s.calls caller = some point → point.Early) :
    stage.Place (s.withCall caller x s.task notes) := by
  cases stage with
  | unstarted | started => exact h
  | taken w c =>
    obtain ⟨point, hc, htells⟩ := h
    have hne : c ≠ caller := by
      rintro rfl
      exact htells.not_early (hearly point hc)
    exact ⟨point, by rwa [calls_withCall_of_ne hne], htells⟩
  | told w c =>
    refine ⟨h.1, h.2.imp_right fun ⟨d, hd⟩ => ?_⟩
    have hne : d ≠ caller := by
      rintro rfl
      exact hearly _ hd
    exact ⟨d, by rwa [calls_withCall_of_ne hne]⟩

/-- A call that has not got past its look at the state returns. -/
theorem Records.ends (h : s.Records p stage) {point : CallPoint} {kind : CallKind} {r : CallResult}
    (hcall : s.calls caller = some point) (hearly : point.Early)
    (hstart : point = .starting ∨ kind = .start → stage ≠ .unstarted)
    (hresult : r ≠ .panicked) (hothers : kind ≠ .ask → r = .ok)
    (hwaits : kind = .wait ∨ kind = .reset → caller < s.firstWorker →
      stage = .unstarted ∨ ∃ w c panicked,
        (stage = .taken w c ∨ stage = .told w c) ∧ s.task.exit? w = some panicked) :
    (s.withCall caller none s.task [.returned caller kind r]).Records
      (p ++ [.returned caller kind r]) stage := by
  refine h.withCall rfl (place_withCall h.place ?_) (by simp) ?_ (by simp) ?_ ?_ ?_ ?_ ?_
  · exact fun point' hpoint' => Option.some.inj (hcall.symm.trans hpoint') ▸ hearly
  · intro n hn
    obtain rfl := List.mem_singleton.1 hn
    exact ⟨rfl, by cases r <;> first | rfl | exact absurd rfl hresult⟩
  · intro hstage
    refine ⟨fun hstarting => ?_, by simp⟩
    exact hstart (.inl (Option.some.inj (hcall.symm.trans hstarting))) hstage
  · intro hstage c r' hmem
    obtain ⟨-, rfl, -⟩ : c = caller ∧ .start = kind ∧ r' = r := by simpa using hmem
    exact hstart (.inr rfl) hstage
  · intro w c kind' r' hstage hmem
    obtain ⟨rfl, -, -⟩ : c = caller ∧ kind' = kind ∧ r' = r := by simpa using hmem
    have hplace := h.place
    rw [hstage] at hplace
    obtain ⟨point', hpoint', htells⟩ := hplace
    exact htells.not_early (Option.some.inj (hcall.symm.trans hpoint') ▸ hearly)
  · refine h.waits.concat fun c kind' r' heq hkind hc hstarted => ?_
    obtain ⟨rfl, rfl, rfl⟩ : caller = c ∧ kind = kind' ∧ r = r' := by simpa using heq
    exact h.exited_of_returned (hwaits hkind hc) hstarted
  · intro c kind' r' hmem hkind
    obtain ⟨rfl, rfl, rfl⟩ : c = caller ∧ kind' = kind ∧ r' = r := by simpa using hmem
    exact .inl (hothers hkind)

theorem Records.call (h : s.Records p stage) {kind : CallKind} (hcall : s.calls caller = none) :
    (s.withCall caller (some kind.entry) s.task [.called caller kind]).Records
      (p ++ [.called caller kind]) stage := by
  refine h.withCall rfl (place_withCall h.place ?_) ?_ (by simp [TaskNote.ofRun, TaskNote.ofReport])
    ?_ ?_ (by simp) (by simp) (h.waits.concat nofun) (by simp)
  · exact fun point hpoint => absurd (hcall.symm.trans hpoint) (by simp)
  · exact fun next hx howes =>
      absurd howes (Option.some.inj hx ▸ (CallPoint.early_entry kind).not_owes)
  · cases kind <;> simp [CallKind.entry]
  · refine fun _ => ⟨by simp [hcall], ?_⟩
    rintro ⟨c, hc⟩
    obtain ⟨-, rfl⟩ : c = caller ∧ .start = kind := by simpa using hc
    rfl

/-- The call of the taker knows how the worker has exited. -/
theorem Records.tells_of_taken (h : s.Records p stage) {w : ThreadId} {point : CallPoint}
    (hstage : stage = .taken w caller) (hcall : s.calls caller = some point) :
    s.task.Tells w point := by
  subst hstage
  obtain ⟨point', hpoint', htells⟩ := h.place
  exact Option.some.inj (hpoint'.symm.trans hcall) ▸ htells

/-- A reset makes the task idle: it tells of a panic only if it has taken the worker. -/
theorem Records.idled (h : s.Records p stage) (hordered : s.Ordered) {panicked : Bool}
    (hcall : s.calls caller = some (.idling panicked)) :
    (s.withCall caller (some (.forgetting panicked)) { s.task with state := .idle } []).Records
      p stage := by
  have hbacks : s.task.state = .idle ∨ s.task.state = .finished := hordered.backs caller _ hcall
  have howes : panicked = true → ∃ w, stage = .taken w caller := by
    rintro rfl
    exact h.owes caller _ hcall trivial
  refine h.goOn (by simp [hcall]) nofun ?_ ?_
  · have hplace := h.place
    cases stage with
    | unstarted => rfl
    | started w =>
      have hrunning : s.task.state = .running w := hplace
      simp [hrunning] at hbacks
    | taken w c =>
      obtain rfl : c = caller := by
        by_contra hne
        obtain ⟨point, hc, -⟩ := hplace
        exact absurd (hc.symm.trans (hordered.alone_idle hcall rfl hbacks hne)) (by simp)
      exact ⟨.forgetting panicked, calls_withCall_self, h.tells_of_taken rfl hcall⟩
    | told w c =>
      refine ⟨hplace.1, .inr ⟨caller, ?_⟩⟩
      rw [calls_withCall_self]
      cases panicked with
      | false => rfl
      | true => exact absurd (howes rfl) (by simp)
  · intro hforgetting
    cases panicked with
    | false => exact hforgetting.elim
    | true => exact howes rfl

/-! ## Steps of the run -/

/-- A start that finds the task idle is the first of its period to do so. -/
theorem Records.unstarted_of_starting (h : s.Records p stage) (hordered : s.Ordered)
    (hcall : s.calls caller = some .starting) (hstate : s.task.state = .idle) :
    stage = .unstarted := by
  have hreset : ∀ d other, s.calls d = some other → other.kind ≠ .reset :=
    fun d other hd => hordered.no_reset hcall (by simp [CallPoint.kind]) (.inl hstate) hd
  have hplace := h.place
  cases stage with
  | unstarted => rfl
  | started w => exact absurd (hstate.symm.trans hplace) (by simp)
  | taken w c =>
    obtain ⟨point, hc, htells⟩ := hplace
    have hbacks := hordered.backs c point hc
    cases point with
    | waiting | storing => exact absurd (hstate.symm.trans hbacks.1) (by simp)
    | idling | forgetting => exact absurd rfl (hreset c _ hc)
    | _ => exact htells.elim
  | told w c =>
    rcases hplace.2 with hfinished | ⟨d, hd⟩
    · exact absurd (hstate.symm.trans hfinished) (by simp)
    · exact absurd rfl (hreset d _ hd)

theorem Records.started_of_running (h : s.Records p stage) (hordered : s.Ordered)
    {worker : ThreadId} (hstate : s.task.state = .running worker) : stage = .started worker := by
  have hplace := h.place
  cases stage with
  | unstarted => exact absurd (hstate.symm.trans hplace) (by simp)
  | started w =>
    obtain rfl : worker = w := TaskState.running.inj (hstate.symm.trans hplace)
    rfl
  | taken w c =>
    obtain ⟨point, hc, htells⟩ := hplace
    have hbacks := hordered.backs c point hc
    cases point with
    | waiting | storing => exact absurd (hstate.symm.trans hbacks.1) (by simp)
    | idling panicked => simp [Task.Backs, hstate] at hbacks
    | forgetting panicked =>
      exact absurd (hstate.symm.trans (hordered.forgets c panicked hc)) (by simp)
    | _ => exact htells.elim
  | told w c =>
    rcases hplace.2 with hfinished | ⟨d, hd⟩
    · exact absurd (hstate.symm.trans hfinished) (by simp)
    · exact absurd (hstate.symm.trans (hordered.forgets d _ hd)) (by simp)

/-- What holds of the starts under way when one call has ended or gone on otherwise. -/
theorem Records.starting_withCall (h : s.Records p stage) {x : Option CallPoint} {t : Task}
    {notes : List TaskNote} (hx : x ≠ some .starting) {c : ThreadId}
    (hc : (s.withCall caller x t notes).calls c = some .starting) :
    .called c .start ∈ p ++ notes := by
  have hne : c ≠ caller := by
    rintro rfl
    exact hx (by simpa using hc)
  exact List.mem_append_left _ (h.starting c (by simpa [calls_withCall_of_ne hne] using hc))

theorem Records.spawn (h : s.Records p .unstarted) (hordered : s.Ordered)
    (hcall : s.calls caller = some .starting) (hstate : s.task.state = .idle) :
    (s.withCall caller none s.task.spawn [.returned caller .start .ok]).Records
      (p ++ [.returned caller .start .ok]) (.started s.task.nextWorker) where
  place := rfl
  live w hw := by
    rcases Task.live_spawn.1 hw with rfl | hw
    · rfl
    · exact absurd hw (hordered.none_live (.inl hstate) w)
  made w hw := ⟨.spawned, (Task.life_spawn w).trans (if_pos (Option.some.inj hw).symm)⟩
  outside _ hc := by simp [Stage.taker?] at hc
  owes := forall_withCall (fun d other _ hd howes => by simpa using h.owes d other hd howes)
    (by simp)
  run := by
    have hmarks : s.task.spawn.marks s.task.nextWorker = [] := by
      rw [Task.marks, Task.life_spawn, if_pos rfl]
    rw [List.filter_append, h.run]
    exact hmarks.symm
  report := by
    rw [List.filter_append, h.report]
    rfl
  starting _ hc := h.starting_withCall (by simp) hc
  started _ := ⟨caller, List.mem_append_left _ (h.starting caller hcall)⟩
  called hstage := absurd hstage (by simp)
  returned hstage := absurd hstage (by simp)
  underWay _ _ _ _ hstage := absurd hstage (by simp)
  waits := h.waits.concat (by simp)
  others c kind r hc hkind := by
    rcases List.mem_append.1 hc with hc | hc
    · exact h.others c kind r hc hkind
    · exact .inl (by simp_all)

theorem Records.took {worker : ThreadId} (h : s.Records p (.started worker)) (resets : Bool)
    (hcaller : caller < s.firstWorker) :
    (s.withCall caller (some (.waiting worker resets)) { s.task with state := .joining }
      [.took caller worker]).Records (p ++ [.took caller worker]) (.taken worker caller) where
  place := ⟨.waiting worker resets, calls_withCall_self, rfl⟩
  live := h.live
  made := h.made
  outside c hc := Option.some.inj hc ▸ hcaller
  owes := forall_withCall (fun d other _ hd howes => by simpa using h.owes d other hd howes)
    fun _ _ _ => ⟨worker, rfl⟩
  run := by
    rw [List.filter_append, h.run]
    exact List.append_nil _
  report := by
    rw [List.filter_append, h.report]
    rfl
  starting _ hc := h.starting_withCall (by simp) hc
  started _ := (h.started (by simp)).imp fun c hc => List.mem_append_left _ hc
  called hstage := absurd hstage (by simp)
  returned hstage := absurd hstage (by simp)
  underWay w c kind r _ hsub := by
    rcases pair_sublist_append hsub with hsub | hmem
    · have htook : .took c w ∈ p := hsub.subset List.mem_cons_self
      simpa using h.took_mem_iff.1 htook
    · simp at hmem
  waits := h.waits.concat nofun
  others c kind r hc hkind := h.others c kind r (by simpa using hc) hkind

theorem Records.waitStored {w : ThreadId} (h : s.Records p (.taken w caller)) {panicked : Bool}
    (hcall : s.calls caller = some (.storing panicked false)) :
    (s.withCall caller none { s.task with state := .finished }
      [.returned caller .wait (Task.outcome panicked)]).Records
      (p ++ [.returned caller .wait (Task.outcome panicked)]) (.told w caller) := by
  have hexit : s.task.exit? w = some panicked := h.tells_of_taken rfl hcall
  exact {
    place := ⟨Option.isSome_iff_exists.2 ⟨panicked, hexit⟩, .inl rfl⟩
    live := h.live
    made := h.made
    outside := h.outside
    owes := by
      refine forall_withCall (fun d other hne hd howes => ?_) (by simp)
      obtain ⟨v, hstage⟩ := h.owes d other hd howes
      exact absurd (Stage.taken.inj hstage).2.symm hne
    run := by
      rw [List.filter_append, h.run]
      exact List.append_nil _
    report := by
      rw [List.filter_append, h.report]
      have hexit' : (s.withCall caller none { s.task with state := .finished }
        [.returned caller .wait (Task.outcome panicked)]).task.exit? w = some panicked := hexit
      rw [Stage.report, Stage.report, hexit']
      cases panicked <;> rfl
    starting := fun _ hc => h.starting_withCall (by simp) hc
    started := fun _ => (h.started (by simp)).imp fun c hc => List.mem_append_left _ hc
    called := fun hstage => absurd hstage (by simp)
    returned := fun hstage => absurd hstage (by simp)
    underWay := fun _ _ _ _ hstage => absurd hstage (by simp)
    waits := h.waits.concat fun _ _ _ _ _ _ hstarted =>
      h.exited_of_returned (.inr ⟨w, caller, panicked, .inl rfl, hexit⟩) hstarted
    others := fun c kind r hc hkind => by
      rcases List.mem_append.1 hc with hc | hc
      · exact h.others c kind r hc hkind
      · cases panicked <;> simp_all [Task.outcome] }

/-- A worker goes on with its life. -/
theorem Records.livesOn (h : s.Records p stage) {worker : ThreadId} (hlive : s.task.Live worker)
    {t : Task} {n : TaskNote} (hstate : t.state = s.task.state)
    (hlives : ∀ w, t.Live w → s.task.Live w) (hmade : ∃ life, t.workers[worker]? = some life)
    (hmarks : t.marks worker = s.task.marks worker ++ [n])
    (hrun : n.ofRun = true) (hreport : n.ofReport = false) :
    { s with task := t, notes := s.notes ++ [n] }.Records (p ++ [n]) stage := by
  have hworker : stage.worker? = some worker := h.live worker hlive
  have hexit : s.task.exit? worker = none := by
    cases hexit : s.task.exit? worker with
    | none => rfl
    | some panicked => exact absurd hlive (Task.not_live_of_exit? hexit)
  have hnot : ∀ c kind r, n ≠ .returned c kind r := by
    rintro c kind r rfl
    exact absurd hrun (by simp [TaskNote.ofRun])
  have hcalled : ∀ c kind, n ≠ .called c kind := by
    rintro c kind rfl
    exact absurd hrun (by simp [TaskNote.ofRun])
  exact {
    place := by
      have hplace := h.place
      cases stage with
      | unstarted => exact hstate.trans hplace
      | started w => exact hstate.trans hplace
      | taken w c =>
        obtain rfl : w = worker := Option.some.inj hworker
        obtain ⟨point, hc, htells⟩ := hplace
        refine ⟨point, hc, ?_⟩
        -- the worker has not exited, so that the taker waits for it
        cases point <;> simp_all [Task.Tells]
      | told w c =>
        obtain rfl : w = worker := Option.some.inj hworker
        simp [Stage.Place, hexit] at hplace
    live := fun w hw => h.live w (hlives w hw)
    made := fun w hw => Option.some.inj (hworker.symm.trans hw) ▸ hmade
    outside := h.outside
    owes := h.owes
    run := by
      rw [List.filter_append, h.run, Stage.run, Stage.run, hworker, Option.elim_some,
        Option.elim_some, hmarks, List.filter_cons_of_pos hrun, List.filter_nil]
    report := by
      rw [List.filter_append, h.report, List.filter_cons_of_neg (by simp [hreport]),
        List.filter_nil, List.append_nil]
      cases stage with
      | unstarted | started | taken => rfl
      | told w c =>
        obtain rfl : w = worker := Option.some.inj hworker
        exact absurd h.place.1 (by simp [hexit])
    starting := fun c hc => List.mem_append_left _ (h.starting c hc)
    started := fun hstage => (h.started hstage).imp fun c hc => List.mem_append_left _ hc
    called := fun hstage => by simp [hstage, Stage.worker?] at hworker
    returned := fun hstage => by simp [hstage, Stage.worker?] at hworker
    underWay := fun w c kind r hstage hsub => by
      rcases pair_sublist_append hsub with hsub | hmem
      · exact h.underWay w c kind r hstage hsub
      · exact hnot c kind r (List.mem_singleton.1 hmem).symm
    waits := h.waits.concat fun c kind r heq => absurd heq (hnot c kind r)
    others := fun c kind r hc hkind => by
      rcases List.mem_append.1 hc with hc | hc
      · exact h.others c kind r hc hkind
      · exact absurd (List.mem_singleton.1 hc).symm (hnot c kind r) }

end SharedTask

end AssetDecl
