import AssetDecl.Proofs.RunStages

/-!
# Runs between resets

In orderly use the history of a task falls into periods, each ended by the return of a reset. In a
period the job runs once if a start is called, and else not. Of the calls that wait for it one takes
the worker, and is told of a panic; no other call is (`dependable_run`).
-/

namespace AssetDecl

/-- A reset returns. -/
def TaskNote.endsPeriod : TaskNote → Bool
  | returned _ .reset _ => true
  | _ => false

namespace SharedTask

variable {s : SharedTask} {caller : ThreadId} {p : List TaskNote} {stage : Stage}

/-! ## Periods -/

/-- The part of a history since its beginning, or since a reset has returned. -/
def Since (notes p : List TaskNote) : Prop :=
  ∃ earlier, notes = earlier ++ p ∧ ∀ n ∈ earlier.getLast?, n.endsPeriod

/-- A period: no reset returns in it but at its end. -/
def Period (s : SharedTask) (p : List TaskNote) : Prop :=
  Since s.notes p ∧ ∀ n ∈ p.dropLast, ¬ n.endsPeriod

/-- A period under way. -/
def Current (s : SharedTask) (p : List TaskNote) : Prop :=
  Since s.notes p ∧ ∀ n ∈ p, ¬ n.endsPeriod

/-- What the history of a period shows. -/
structure RunsOnce (firstWorker : ThreadId) (p : List TaskNote) : Prop where
  /-- The job is entered at most once. -/
  run : ∃ w panicked, p.filter TaskNote.ofRun <+: [.entered w, .exited w panicked]
  /-- It is not, if no start is called. -/
  unstarted : (∀ c, .called c .start ∉ p) → p.filter TaskNote.ofRun = []
  /-- If one is called, it has been entered and has exited when a reset returns. -/
  complete : ∀ c d r, .called c .start ∈ p → .returned d .reset r ∈ p →
    ∃ w panicked, p.filter TaskNote.ofRun = [.entered w, .exited w panicked]
  waits : Waits firstWorker p
  /-- One call at most takes the worker, and no other is told of a panic. -/
  report : ∃ c w kind,
    p.filter TaskNote.ofReport <+: [.took c w, .returned c kind .panicked]
  /-- Who is told of a panic is no worker and has waited, and the run has panicked. -/
  panicked : ∀ c kind, .returned c kind .panicked ∈ p →
    c < firstWorker ∧ (kind = .wait ∨ kind = .reset) ∧ ∃ w, .exited w true ∈ p
  /-- A panic has been told when the call that has taken the worker has returned. -/
  told : ∀ c w kind r, [.took c w, .returned c kind r].Sublist p → .exited w true ∈ p →
    ∃ kind, .returned c kind .panicked ∈ p
  /-- No call fails in another way. -/
  others : ∀ c kind r, .returned c kind r ∈ p → kind ≠ .ask → r = .ok ∨ r = .panicked

/-! ## The end of a period -/

/-- A run that is over shows what is asked of it. -/
theorem Records.runsOnce (h : s.Records p stage) (hopen : ∀ n ∈ p, ¬ n.endsPeriod) :
    RunsOnce s.firstWorker p where
  run := by
    rw [h.run, Stage.run]
    cases stage.worker? with
    | none => exact ⟨0, false, List.nil_prefix⟩
    | some w => exact ⟨w, s.task.marks_begin w⟩
  unstarted hnone := by
    have hstage : stage = .unstarted := by
      by_contra hstage
      exact (h.started hstage).elim hnone
    rw [h.run, hstage]
    rfl
  complete c d r _ hreset := absurd rfl (hopen _ hreset)
  waits := h.waits
  report := by
    rw [h.report]
    cases stage with
    | unstarted | started => exact ⟨0, 0, .wait, List.nil_prefix⟩
    | taken w c => exact ⟨c, w, .wait, by simp [Stage.report]⟩
    | told w c =>
      refine ⟨c, w, .wait, ?_⟩
      rw [Stage.report]
      split <;> simp
  panicked c kind hc := by
    obtain ⟨rfl, w, hstage, hexit⟩ := h.panicked_mem_iff.1 hc
    exact ⟨h.outside c (by rw [hstage]; rfl), .inl rfl,
      w, h.exited_mem_iff.2 ⟨by rw [hstage]; rfl, hexit⟩⟩
  told c w kind r hsub hexited := by
    have htook : .took c w ∈ p := hsub.subset List.mem_cons_self
    rcases h.took_mem_iff.1 htook with hstage | hstage
    · exact absurd hsub (h.underWay w c kind r hstage)
    · exact ⟨.wait, h.panicked_mem_iff.2 ⟨rfl, w, hstage, (h.exited_mem_iff.1 hexited).2⟩⟩
  others := h.others

/-- The call of a reset past its wait is the taker's, or no call has taken the worker that has not
told of it. -/
theorem Records.eq_taker (h : s.Records p stage) (hordered : s.Ordered) {panicked : Bool}
    (hcall : s.calls caller = some (.forgetting panicked)) {w c : ThreadId}
    (hstage : stage = .taken w c) : c = caller ∧ s.task.exit? w = some panicked := by
  have hstate := hordered.forgets caller panicked hcall
  subst hstage
  obtain ⟨point, hc, htells⟩ := h.place
  have heq : c = caller := by
    by_contra hne
    exact absurd (hc.symm.trans (hordered.alone_idle hcall rfl (.inl hstate) hne)) (by simp)
  subst heq
  obtain rfl := Option.some.inj (hcall.symm.trans hc)
  exact ⟨rfl, htells⟩

/-- When a reset returns, the run of its period is over. -/
theorem Records.runsOnce_reset (h : s.Records p stage) (hordered : s.Ordered)
    (hopen : ∀ n ∈ p, ¬ n.endsPeriod) {panicked : Bool}
    (hcall : s.calls caller = some (.forgetting panicked)) :
    RunsOnce s.firstWorker (p ++ [.returned caller .reset (Task.outcome panicked)]) := by
  have hstate := hordered.forgets caller panicked hcall
  have hended := h.ended hordered.toGuarded (.inl hstate)
  have hruns := h.runsOnce hopen
  have hrun : (p ++ [TaskNote.returned caller .reset (Task.outcome panicked)]).filter
      TaskNote.ofRun = p.filter TaskNote.ofRun := by simp [TaskNote.ofRun]
  -- the reset reports a panic only if it has taken the worker
  have howes : panicked = true → ∃ w, stage = .taken w caller := by
    rintro rfl
    exact h.owes caller _ hcall trivial
  have hreturned {c : ThreadId} {kind : CallKind} {r : CallResult} :
      .returned c kind r ∈ p ++ [.returned caller .reset (Task.outcome panicked)] →
        .returned c kind r ∈ p ∨ c = caller ∧ kind = .reset ∧ r = Task.outcome panicked := by simp
  exact {
    run := hrun ▸ hruns.run
    unstarted := fun hnone => hrun ▸ hruns.unstarted fun c hc => hnone c (List.mem_append_left _ hc)
    complete := by
      intro c _ _ hc _
      have hc : .called c .start ∈ p := by simpa using hc
      rcases hended with hunstarted | ⟨w, d, b, hstage, hexit⟩
      · obtain ⟨d, hd⟩ := h.called hunstarted c hc
        have hreset := hordered.no_reset hd (by simp [CallPoint.kind]) (.inl hstate) hcall
        exact absurd rfl hreset
      · refine ⟨w, b, ?_⟩
        rw [hrun, h.run]
        rcases hstage with rfl | rfl <;> exact Task.marks_of_exit? hexit
    waits := h.waits.concat fun _ _ _ _ _ _ => h.exited_of_returned hended
    report := by
      rw [List.filter_append]
      cases panicked with
      | false => simpa [TaskNote.ofReport, Task.outcome] using hruns.report
      | true =>
        obtain ⟨w, rfl⟩ := howes rfl
        refine ⟨caller, w, .reset, ?_⟩
        rw [h.report]
        exact List.prefix_rfl
    panicked := by
      intro c kind hc
      rcases hreturned hc with hc | ⟨rfl, rfl, hpanicked⟩
      · obtain ⟨hcaller, hkind, w, hw⟩ := hruns.panicked c kind hc
        exact ⟨hcaller, hkind, w, List.mem_append_left _ hw⟩
      · cases panicked with
        | false => simp [Task.outcome] at hpanicked
        | true =>
          obtain ⟨w, rfl⟩ := howes rfl
          refine ⟨h.outside c rfl, .inr rfl, w, List.mem_append_left _ ?_⟩
          exact h.exited_mem_iff.2 ⟨rfl, (h.eq_taker hordered hcall rfl).2⟩
    told := by
      intro c w kind r hsub hexited
      have hexited : .exited w true ∈ p := by simpa using hexited
      have htook : .took c w ∈ p := by simpa using hsub.subset List.mem_cons_self
      have hexit := (h.exited_mem_iff.1 hexited).2
      rcases h.took_mem_iff.1 htook with hstage | hstage
      · obtain ⟨rfl, hexit'⟩ := h.eq_taker hordered hcall hstage
        obtain rfl : true = panicked := Option.some.inj (hexit.symm.trans hexit')
        exact ⟨.reset, List.mem_append_right _ (List.mem_singleton.2 rfl)⟩
      · have hmem := h.panicked_mem_iff.2 ⟨rfl, w, hstage, hexit⟩
        exact ⟨.wait, List.mem_append_left _ hmem⟩
    others := by
      intro c kind r hc hkind
      rcases hreturned hc with hc | ⟨-, -, rfl⟩
      · exact hruns.others c kind r hc hkind
      · cases panicked <;> simp [Task.outcome] }

/-- After a reset nothing is left of the period before. -/
theorem Ordered.records_forgot (h : s.Ordered) {panicked : Bool}
    (hcall : s.calls caller = some (.forgetting panicked)) {notes : List TaskNote} :
    (s.withCall caller none { s.task with known := none } notes).Records [] .unstarted := by
  have hstate := h.forgets caller panicked hcall
  have hcalls (c : ThreadId) :
      (s.withCall caller none { s.task with known := none } notes).calls c = none := by
    by_cases hne : c = caller
    · rw [hne, calls_withCall_self]
    · rw [calls_withCall_of_ne hne]
      exact h.alone_idle hcall rfl (.inl hstate) hne
  exact {
    place := hstate
    live := fun w hw => absurd hw (h.none_live (.inl hstate) w)
    made := by simp [Stage.worker?]
    outside := by simp [Stage.taker?]
    owes := by simp [hcalls]
    run := rfl
    report := rfl
    starting := by simp [hcalls]
    started := fun hstage => absurd rfl hstage
    called := by simp
    returned := by simp
    underWay := by simp
    waits := by simp [Waits]
    others := by simp }

/-! ## Moves -/

/-- A move of a period under way: it goes on, or it is over. -/
inductive Follows (s : SharedTask) (p : List TaskNote) (s' : SharedTask) : Prop where
  | continued {notes : List TaskNote} {stage : Stage} (hnotes : s'.notes = s.notes ++ notes)
      (hopen : ∀ n ∈ notes, ¬ n.endsPeriod) (records : s'.Records (p ++ notes) stage)
  | ended {n : TaskNote} (hnotes : s'.notes = s.notes ++ [n]) (hends : n.endsPeriod)
      (runs : RunsOnce s.firstWorker (p ++ [n])) (records : s'.Records [] .unstarted)

theorem Records.stay (h : s.Records p stage) : s.Follows p s :=
  .continued (List.append_nil _).symm (by simp) ((List.append_nil p).symm ▸ h)

theorem Records.silently {x : Option CallPoint} {t : Task}
    (h : (s.withCall caller x t []).Records p stage) :
    s.Follows p (s.withCall caller x t []) :=
  .continued rfl (by simp) ((List.append_nil p).symm ▸ h)

theorem Records.step (h : s.Records p stage) (hordered : s.Ordered)
    (hopen : ∀ n ∈ p, ¬ n.endsPeriod) : s.Follows p (s.step caller) := by
  have hsteps := steps_step s caller
  generalize s.step caller = s' at hsteps ⊢
  cases hsteps with
  | stay => exact h.stay
  | spawn hcall hstate =>
    obtain rfl := h.unstarted_of_starting hordered hcall hstate
    exact .continued rfl (by simp [TaskNote.endsPeriod]) (h.spawn hordered hcall hstate)
  | started hcall hstate =>
    refine .continued rfl (by simp [TaskNote.endsPeriod])
      (h.ends hcall trivial ?_ nofun (fun _ => rfl) ?_)
    · rintro - rfl
      exact hstate h.place
    · simp
  | answered hcall =>
    exact .continued rfl (by simp [TaskNote.endsPeriod])
      (h.ends hcall trivial (by simp) nofun (fun hkind => absurd rfl hkind) (by simp))
  | ownWait hcall hknown =>
    refine .continued rfl (by simp [TaskNote.endsPeriod])
      (h.ends hcall trivial (by simp) nofun (fun _ => rfl) fun _ hcaller => ?_)
    exact absurd (hordered.known caller hknown) (Nat.not_le.2 hcaller)
  | ownReset hcall hknown =>
    exact absurd (hordered.known caller hknown) (Nat.not_le.2 (hordered.resets caller _ hcall rfl))
  | waitOver hcall hstate =>
    exact .continued rfl (by simp [TaskNote.endsPeriod]) (h.ends hcall trivial (by simp) nofun
      (fun _ => rfl) fun _ _ => h.ended hordered.toGuarded hstate)
  | checked hcall _ =>
    refine Records.silently (h.goOn (by simp [hcall]) nofun (place_withCall h.place ?_) nofun)
    exact fun point hpoint => Option.some.inj (hcall.symm.trans hpoint) ▸ trivial
  | resetOver hcall _ =>
    refine Records.silently (h.goOn (by simp [hcall]) nofun (place_withCall h.place ?_) nofun)
    exact fun point hpoint => Option.some.inj (hcall.symm.trans hpoint) ▸ trivial
  | took hcall hstate =>
    obtain rfl := h.started_of_running hordered hstate
    exact .continued rfl (by simp [TaskNote.endsPeriod]) (h.took _ (hordered.outside hcall id))
  | exited hcall hexit =>
    obtain ⟨w, rfl⟩ := h.owes caller _ hcall trivial
    obtain rfl := h.tells_of_taken rfl hcall
    exact Records.silently (h.goOn (by simp [hcall]) nofun ⟨_, calls_withCall_self, hexit⟩
      fun _ => ⟨_, rfl⟩)
  | waitStored hcall =>
    obtain ⟨w, rfl⟩ := h.owes caller _ hcall trivial
    exact .continued rfl (by simp [TaskNote.endsPeriod]) (h.waitStored hcall)
  | resetStored hcall =>
    obtain ⟨w, rfl⟩ := h.owes caller _ hcall trivial
    have htells := h.tells_of_taken rfl hcall
    exact Records.silently (h.goOn (by simp [hcall]) nofun ⟨_, calls_withCall_self, htells⟩
      fun _ => ⟨w, rfl⟩)
  | idled hcall => exact Records.silently (h.idled hordered hcall)
  | forgot hcall =>
    exact .ended rfl rfl (h.runsOnce_reset hordered hopen hcall) (hordered.records_forgot hcall)

theorem Records.perform (h : s.Records p stage) (hordered : s.Ordered)
    (hopen : ∀ n ∈ p, ¬ n.endsPeriod) (m : Move) : s.Follows p (s.perform m) := by
  cases m with
  | call caller kind =>
    simp only [SharedTask.perform, SharedTask.call]
    split
    · rename_i hcan
      exact .continued rfl (by simp [TaskNote.endsPeriod]) (h.call hcan.1)
    · exact h.stay
  | step caller => exact h.step hordered hopen
  | enter worker =>
    simp only [SharedTask.perform, SharedTask.enter]
    split
    · rename_i hspawned
      have hlife := Task.life_enter (t := s.task) worker worker
      refine .continued rfl (by simp [TaskNote.endsPeriod]) (h.livesOn (.inl hspawned) rfl
        (fun w => (Task.live_enter (.inl hspawned)).1) ⟨_, hlife.trans (if_pos rfl)⟩ ?_ rfl rfl)
      rw [Task.marks, Task.marks, hlife, hspawned, if_pos rfl]
      rfl
    · exact h.stay
  | exit worker panicked =>
    simp only [SharedTask.perform, SharedTask.exit]
    split
    · rename_i hexits
      have hlife := Task.life_exit (t := s.task) worker worker panicked
      refine .continued rfl (by simp [TaskNote.endsPeriod]) (h.livesOn (.inr hexits.1) rfl
        (fun w hw => (Task.live_exit.1 hw).2) ⟨_, hlife.trans (if_pos rfl)⟩ ?_ rfl rfl)
      rw [Task.marks, Task.marks, hlife, hexits.1, if_pos rfl]
      rfl
    · exact h.stay

theorem firstWorker_perform (m : Move) : (s.perform m).firstWorker = s.firstWorker := by
  cases m with
  | call caller kind =>
    simp only [SharedTask.perform, SharedTask.call]
    split <;> rfl
  | step caller =>
    have hsteps := steps_step s caller
    simp only [SharedTask.perform]
    generalize s.step caller = s' at hsteps ⊢
    cases hsteps <;> rfl
  | enter worker =>
    simp only [SharedTask.perform, SharedTask.enter]
    split <;> rfl
  | exit worker panicked =>
    simp only [SharedTask.perform, SharedTask.exit]
    split <;> rfl

/-! ## Periods of a run -/

theorem Since.of_append {history notes : List TaskNote} (h : Since (history ++ notes) p)
    (hopen : ∀ n ∈ notes, ¬ n.endsPeriod) : ∃ q, Since history q ∧ p = q ++ notes := by
  obtain ⟨earlier, heq, hearlier⟩ := h
  rcases List.append_eq_append_iff.1 heq with ⟨q, rfl, rfl⟩ | ⟨q, rfl, rfl⟩
  · -- a reset that returns at the end of `q` is none of the notes
    rcases q.eq_nil_or_concat with rfl | ⟨q', n, rfl⟩
    · exact ⟨[], ⟨history, by simp, by simpa using hearlier⟩, rfl⟩
    · exact absurd (hearlier n (by simp)) (hopen n (by simp))
  · exact ⟨q, ⟨earlier, rfl, hearlier⟩, rfl⟩

theorem Current.unique {q : List TaskNote} (h : s.Current p) (h' : s.Current q) : p = q := by
  obtain ⟨⟨earlier, heq, -⟩, hopen⟩ := id h
  obtain ⟨⟨earlier', heq', -⟩, hopen'⟩ := id h'
  obtain ⟨q', -, rfl⟩ := (heq ▸ h'.1).of_append hopen
  obtain ⟨p', -, hp⟩ := (heq' ▸ h.1).of_append hopen'
  have hlength := congrArg List.length hp
  simp only [List.length_append] at hlength
  obtain rfl : q' = [] := List.eq_nil_of_length_eq_zero (by omega)
  rfl

/-- What holds of a task whose calls are orderly. -/
structure Dependable (s : SharedTask) : Prop where
  periods : ∀ p, s.Period p → RunsOnce s.firstWorker p
  /-- The job has been entered when a start has returned, or the worker is there to enter it. -/
  made : ∀ p c r, s.Current p → .returned c .start r ∈ p →
    (∃ w : ThreadId, s.task.workers[w]? = some .spawned) ∨ ∃ w, .entered w ∈ p
  /-- A worker that waits for its own exit returns at once, and nothing else changes. -/
  own : ∀ w point, s.firstWorker ≤ w → s.calls w = some point → point.kind = .wait →
    s.step w = s.withCall w none s.task [.returned w .wait .ok]
  /-- When the worker has exited, some call can go on, as long as any is under way. -/
  goesOn : (∀ w, ¬ s.task.Live w) → ∀ c point, s.calls c = some point →
    ∃ d other, s.calls d = some other ∧ s.task.step d other ≠ .blocked

theorem records_fresh (name : String) (threads : Nat) :
    (fresh name threads).Records [] .unstarted := by
  constructor <;> simp [fresh, Stage.Place, Task.Live, Stage.taker?, Stage.worker?, Stage.run,
    Stage.report, Waits]

/-- What orderly moves keep. -/
structure Recorded (s : SharedTask) : Prop where
  ordered : s.Ordered
  records : ∃ p stage, s.Current p ∧ s.Records p stage
  periods : ∀ p, s.Period p → RunsOnce s.firstWorker p

theorem recorded_fresh (name : String) (threads : Nat) : (fresh name threads).Recorded where
  ordered := ordered_fresh name threads
  records := ⟨[], .unstarted, ⟨⟨[], rfl, by simp⟩, by simp⟩, records_fresh name threads⟩
  periods p hp := by
    obtain ⟨⟨earlier, heq, -⟩, -⟩ := hp
    obtain ⟨-, rfl⟩ := List.append_eq_nil_iff.1 heq.symm
    exact (records_fresh name threads).runsOnce (by simp)

theorem Recorded.of_continued (h : s.Recorded) {s' : SharedTask} {notes : List TaskNote}
    (hordered : s'.Ordered) (hworker : s'.firstWorker = s.firstWorker)
    (hnotes : s'.notes = s.notes ++ notes) (hopen : ∀ n ∈ notes, ¬ n.endsPeriod)
    (hcurrent : s.Current p) (hrecords : s'.Records (p ++ notes) stage) : s'.Recorded := by
  have hopen' : ∀ n ∈ p ++ notes, ¬ n.endsPeriod :=
    List.forall_mem_append.2 ⟨hcurrent.2, hopen⟩
  refine ⟨hordered, ⟨p ++ notes, stage, ⟨?_, hopen'⟩, hrecords⟩, fun q hq => ?_⟩
  · obtain ⟨earlier, heq, hearlier⟩ := hcurrent.1
    exact ⟨earlier, by rw [hnotes, heq, List.append_assoc], hearlier⟩
  · obtain ⟨hsince, hunbroken⟩ := hq
    rw [hnotes] at hsince
    obtain ⟨q', hq', rfl⟩ := hsince.of_append hopen
    rcases notes.eq_nil_or_concat with rfl | ⟨notes', n, rfl⟩
    · rw [List.append_nil] at hunbroken ⊢
      exact hworker ▸ h.periods q' ⟨hq', hunbroken⟩
    · have hbefore : ∀ n ∈ q', ¬ n.endsPeriod := fun m hm =>
        hunbroken m (by simp [← List.append_assoc, hm])
      obtain rfl := hcurrent.unique ⟨hq', hbefore⟩
      exact hrecords.runsOnce hopen'

theorem recorded_of_ended {s' : SharedTask} {n : TaskNote} (hordered : s'.Ordered)
    (hworker : s'.firstWorker = s.firstWorker)
    (hnotes : s'.notes = s.notes ++ [n]) (hends : n.endsPeriod) (hcurrent : s.Current p)
    (hruns : RunsOnce s.firstWorker (p ++ [n])) (hrecords : s'.Records [] .unstarted) :
    s'.Recorded := by
  refine ⟨hordered, ⟨[], .unstarted, ⟨⟨s'.notes, by simp, ?_⟩, by simp⟩, hrecords⟩,
    fun q hq => ?_⟩
  · rw [hnotes, List.getLast?_concat]
    rintro m ⟨rfl⟩
    exact hends
  · obtain ⟨⟨earlier, heq, hearlier⟩, hunbroken⟩ := hq
    rcases q.eq_nil_or_concat with rfl | ⟨q', m, rfl⟩
    · exact hrecords.runsOnce (by simp)
    · rw [List.concat_eq_append] at *
      rw [hnotes, ← List.append_assoc] at heq
      obtain ⟨hhistory, hlast⟩ := List.append_inj' heq rfl
      obtain rfl := List.singleton_inj.1 hlast
      rw [List.dropLast_concat] at hunbroken
      obtain rfl := hcurrent.unique ⟨⟨earlier, hhistory, hearlier⟩, hunbroken⟩
      exact hworker ▸ hruns

theorem Recorded.perform {m : Move} (h : s.Recorded) (hm : s.Orderly m) :
    (s.perform m).Recorded := by
  obtain ⟨p, stage, hcurrent, hrecords⟩ := h.records
  have hordered := h.ordered.perform hm
  have hworker := firstWorker_perform (s := s) m
  cases hrecords.perform h.ordered hcurrent.2 m with
  | continued hnotes hopen records =>
    exact h.of_continued hordered hworker hnotes hopen hcurrent records
  | ended hnotes hends runs records =>
    exact recorded_of_ended hordered hworker hnotes hends hcurrent runs records

theorem Recorded.run (h : s.Recorded) {moves : List Move} (hmoves : s.OrderlyRun moves) :
    (s.run moves).Recorded := by
  induction moves generalizing s with
  | nil => exact h
  | cons m moves ih => exact ih (h.perform hmoves.1) hmoves.2

theorem Recorded.made (h : s.Recorded) {c : ThreadId} {r : CallResult} (hcurrent : s.Current p)
    (hstart : .returned c .start r ∈ p) :
    (∃ w : ThreadId, s.task.workers[w]? = some .spawned) ∨ ∃ w, .entered w ∈ p := by
  obtain ⟨q, stage, hq, hrecords⟩ := h.records
  obtain rfl := hcurrent.unique hq
  have hworker : stage.worker? ≠ none := by
    intro hnone
    cases stage with
    | unstarted => exact hrecords.returned rfl c r hstart
    | _ => simp [Stage.worker?] at hnone
  obtain ⟨w, hw⟩ := Option.ne_none_iff_exists'.1 hworker
  obtain ⟨life, hlife⟩ := hrecords.made w hw
  have hentered : ∀ n ∈ s.task.marks w, n ∈ p := by
    intro n hn
    have hmem : n ∈ p.filter TaskNote.ofRun := by
      rw [hrecords.run, Stage.run, hw]
      exact hn
    exact (List.mem_filter.1 hmem).1
  cases life with
  | spawned => exact .inl ⟨w, hlife⟩
  | alive | exited => exact .inr ⟨w, hentered _ (by simp [Task.marks, hlife])⟩

theorem Ordered.own (h : s.Ordered) {w : ThreadId} {point : CallPoint} (hw : s.firstWorker ≤ w)
    (hcall : s.calls w = some point) (hkind : point.kind = .wait) :
    s.step w = s.withCall w none s.task [.returned w .wait .ok] := by
  obtain ⟨halive, hfirst⟩ := h.workers w point hw hcall
  have hknown := h.knows w halive
  cases point with
  | checking resets =>
    cases resets with
    | false => simp [SharedTask.step, Task.step, Task.conclude, Task.outcome, CallPoint.kind, hcall,
        hknown]
    | true => exact hfirst.elim
  | starting | asking => simp [CallPoint.kind] at hkind
  | _ => exact hfirst.elim

/-- The taker goes on when the worker has exited. -/
theorem Records.taker_goesOn {w c : ThreadId} (h : s.Records p (.taken w c))
    (hlive : ¬ s.task.Live w) {point : CallPoint} (hcall : s.calls c = some point) :
    s.task.step c point ≠ .blocked := by
  intro hblocked
  have htells := h.tells_of_taken rfl hcall
  rcases Task.of_step_eq_blocked hblocked with ⟨⟨resets, rfl⟩, -⟩ | ⟨v, resets, rfl, hexit⟩
  · exact htells
  · obtain rfl : v = w := htells
    obtain ⟨life, hlife⟩ := h.made v rfl
    cases life with
    | spawned => exact hlive (.inl hlife)
    | alive => exact hlive (.inr hlife)
    | exited panicked => simp [Task.exit?, hlife] at hexit

/-- A call that has to wait does so for the worker, or for the call that has taken it. -/
theorem Records.goesOn (h : s.Records p stage) (hordered : s.Ordered)
    (hlive : ∀ w, ¬ s.task.Live w) {point : CallPoint} (hcall : s.calls caller = some point) :
    ∃ d other, s.calls d = some other ∧ s.task.step d other ≠ .blocked := by
  by_cases hblocked : s.task.step caller point = .blocked
  · have htaken : ∃ w c, stage = .taken w c := by
      rcases Task.of_step_eq_blocked hblocked with ⟨-, hstate⟩ | ⟨v, resets, rfl, -⟩
      · have hplace := h.place
        cases stage with
        | taken w c => exact ⟨w, c, rfl⟩
        | unstarted => exact absurd (hstate.symm.trans hplace) (by simp)
        | started w => exact absurd (hstate.symm.trans hplace) (by simp)
        | told w c =>
          rcases hplace.2 with hfinished | ⟨d, hd⟩
          · exact absurd (hstate.symm.trans hfinished) (by simp)
          · exact absurd (hstate.symm.trans (hordered.forgets d _ hd)) (by simp)
      · exact (h.owes caller _ hcall trivial).imp fun w hstage => ⟨caller, hstage⟩
    obtain ⟨w, c, rfl⟩ := htaken
    obtain ⟨other, hc, -⟩ := h.place
    exact ⟨c, other, hc, h.taker_goesOn (hlive w) hc⟩
  · exact ⟨caller, point, hcall, hblocked⟩

/-- Orderly calls of any number of threads find a task dependable, whatever their order. -/
theorem dependable_run (name : String) (threads : Nat) (moves : List Move)
    (h : (fresh name threads).OrderlyRun moves) : ((fresh name threads).run moves).Dependable := by
  have hrecorded := (recorded_fresh name threads).run h
  obtain ⟨p, stage, -, hrecords⟩ := hrecorded.records
  exact {
    periods := hrecorded.periods
    made := fun _ _ _ hcurrent hstart => hrecorded.made hcurrent hstart
    own := fun _ _ hw hcall hkind => hrecorded.ordered.own hw hcall hkind
    goesOn := fun hlive _ _ hcall => hrecords.goesOn hrecorded.ordered hlive hcall }

/-- A run that panics, for which two threads wait before one of them resets the task. -/
theorem dependable_run_panicking :
    let moves : List Move := [.call 0 .start, .call 1 .wait, .step 0, .enter 2, .step 1, .step 1,
      .call 0 .wait, .step 0, .step 0, .call 2 .wait, .step 2, .exit 2 true, .step 1, .step 1,
      .step 0, .call 0 .reset, .step 0, .step 0, .step 0, .step 0, .call 1 .start, .step 1]
    (fresh "scan" 2).OrderlyRun moves ∧ ((fresh "scan" 2).run moves).Dependable :=
  ⟨by decide +kernel, dependable_run "scan" 2 _ (by decide +kernel)⟩

end SharedTask

end AssetDecl
