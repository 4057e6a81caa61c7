import AssetDecl.Proofs.EndedScans
import AssetDecl.Session.Step

/-!
# Idle systems

The worker of a scan runs no longer than the scan is under way and its callbacks are being run
(`System.Reachable.attended`). So where no scan is in progress nobody has to wait for one
(`System.Idle.not_wouldBlock`). Whoever waits for the newest scans of all types is then told of a
panic that nobody has heard of. If there are several it may be any of them, since the order in which
the scans are joined is open (`System.Idle.replies_awaitAll_iff`).
-/

namespace AssetDecl

/-! ## Joining workers -/

namespace ScanTicket

variable {ticket : ScanTicket} {tickets : List ScanTicket} {e : Failure}

theorem isSome_join? (ticket : ScanTicket) : ticket.join?.isSome = !ticket.isRunning := by
  unfold join? isRunning
  cases ticket.worker with
  | running | joined => rfl
  | exited panicked => cases panicked <;> rfl

/-- Joining the workers of several scans ends if none of them runs any more. -/
theorem isSome_joinAll_iff :
    (joinAll tickets).isSome = true ↔ ∀ ticket ∈ tickets, ticket.isRunning = false := by
  induction tickets with
  | nil => simp [joinAll]
  | cons ticket rest ih =>
    rw [List.forall_mem_cons, ← ih, ← Bool.not_eq_true', ← isSome_join?, joinAll]
    rcases ticket.join? with - | - | - <;> cases joinAll rest <;> simp

/-- The first failure is told. -/
theorem joinAll_cons_of_error (h : ticket.join? = some (.error e))
    (hrest : (joinAll tickets).isSome = true) :
    joinAll (ticket :: tickets) = some (.error e) := by
  obtain ⟨result, hresult⟩ := Option.isSome_iff_exists.1 hrest
  rw [joinAll, h, hresult]

/-- A failure that is told is that of a worker. -/
theorem exists_of_joinAll_error (h : joinAll tickets = some (.error e)) :
    ∃ ticket ∈ tickets, ticket.join? = some (.error e) := by
  induction tickets with
  | nil => simp [joinAll] at h
  | cons ticket rest ih =>
    rw [joinAll] at h
    split at h
    · rename_i hticket _
      exact ⟨ticket, List.mem_cons_self, hticket.trans h⟩
    · obtain ⟨ticket', hmem, hticket'⟩ := ih (by simp_all)
      exact ⟨ticket', List.mem_cons_of_mem _ hmem, hticket'⟩
    · simp at h

end ScanTicket

namespace Catalogue

variable {cat cat' : Catalogue} {t : DeclType} {ticket ticket' : ScanTicket}
  {generation : Nat} {order : TableOrder DeclType} {e : Failure}

theorem mem_currentScans :
    ticket ∈ cat.currentScans order ↔ ∃ t : DeclType, cat.tickets[t]? = some ticket := by
  unfold currentScans
  simp only [List.mem_filterMap, TableOrder.mem_arrange, Std.ExtTreeMap.mem_keys]
  constructor
  · rintro ⟨t, -, ht⟩
    exact ⟨t, ht⟩
  · rintro ⟨t, ht⟩
    exact ⟨t, Std.ExtTreeMap.mem_iff_isSome_getElem?.2 (by rw [ht]; rfl), ht⟩

theorem isSome_joinAll_currentScans (cat : Catalogue) (front : List ScanTicket)
    (order order' : TableOrder DeclType) :
    (ScanTicket.joinAll (front ++ cat.currentScans order)).isSome =
      (ScanTicket.joinAll (front ++ cat.currentScans order')).isSome := by
  rw [Bool.eq_iff_iff, ScanTicket.isSome_joinAll_iff, ScanTicket.isSome_joinAll_iff]
  simp only [List.mem_append, mem_currentScans]

theorem map_const_congr {α β : Type} {o o' : Option α} (h : o.isSome = o'.isSome) (b : β) :
    (o.map fun _ => b) = o'.map fun _ => b := by
  cases o <;> cases o' <;> simp_all

/-- In which order the newest scans are joined makes no difference to the catalogue. -/
theorem map_snd_joinCurrent (cat : Catalogue) (order : TableOrder DeclType) :
    (cat.joinCurrent order).map Prod.snd = cat.awaitAll := by
  unfold awaitAll joinCurrent
  rw [Option.map_map, Option.map_map]
  exact map_const_congr (cat.isSome_joinAll_currentScans [] order .listed) _

/-- Nor does it where the superseded scans are joined first, as at the end of the manager. -/
theorem map_snd_joinEvery (cat : Catalogue) (order : TableOrder DeclType) :
    (cat.joinEvery order).map Prod.snd = (cat.joinEvery .listed).map Prod.snd := by
  unfold joinEvery
  rw [Option.map_map, Option.map_map]
  exact map_const_congr (cat.isSome_joinAll_currentScans cat.superseded order .listed) _

theorem map_fst_joinCurrent (cat : Catalogue) (order : TableOrder DeclType) :
    (cat.joinCurrent order).map Prod.fst = ScanTicket.joinAll (cat.currentScans order) := by
  unfold joinCurrent
  rw [Option.map_map]
  exact Option.map_id'

/-- Whoever waits for the newest scans of all types may be told of any panic that nobody has heard
of, and of nothing else. -/
theorem exists_joinCurrent_error_iff (hended : cat.awaitAll.isSome = true) :
    (∃ order, (cat.joinCurrent order).map Prod.fst = some (.error e)) ↔
      ∃ (t : DeclType) (ticket : ScanTicket),
        cat.tickets[t]? = some ticket ∧ ticket.join? = some (.error e) := by
  simp only [map_fst_joinCurrent]
  constructor
  · rintro ⟨order, h⟩
    obtain ⟨ticket, hmem, hticket⟩ := ScanTicket.exists_of_joinAll_error h
    obtain ⟨t, ht⟩ := mem_currentScans.1 hmem
    exact ⟨t, ticket, ht, hticket⟩
  · rintro ⟨t, ticket, ht, hticket⟩
    have hkey : t ∈ cat.tickets.keys :=
      Std.ExtTreeMap.mem_keys.2 (Std.ExtTreeMap.mem_iff_isSome_getElem?.2 (by rw [ht]; rfl))
    have hfirst : cat.currentScans (.startingWith t) =
        ticket :: (cat.tickets.keys.erase t).filterMap fun t => cat.tickets[t]? := by
      unfold currentScans
      rw [TableOrder.arrange_startingWith hkey, List.filterMap_cons_some ht]
    have hsome : (ScanTicket.joinAll (cat.currentScans (.startingWith t))).isSome = true := by
      rw [← map_fst_joinCurrent, Option.isSome_map, ← Option.isSome_map, map_snd_joinCurrent]
      exact hended
    refine ⟨.startingWith t, ?_⟩
    rw [hfirst] at hsome ⊢
    rw [ScanTicket.isSome_joinAll_iff, List.forall_mem_cons] at hsome
    exact ScanTicket.joinAll_cons_of_error hticket (ScanTicket.isSome_joinAll_iff.2 hsome.2)

/-! ## Workers that run -/

/-- The ticket is that of the newest scan of a type, or of one that has been superseded. -/
def Keeps (cat : Catalogue) (ticket : ScanTicket) : Prop :=
  ticket ∈ cat.superseded ∨ ∃ t : DeclType, cat.tickets[t]? = some ticket

/-- The worker of some generation runs. -/
def Runs (cat : Catalogue) (generation : Nat) : Prop :=
  ∃ ticket, cat.Keeps ticket ∧ ticket.isRunning = true ∧ ticket.generation = generation

theorem Runs.of_keeps (h : cat'.Runs generation)
    (hkeeps : ∀ ticket, cat'.Keeps ticket → ticket.isRunning = true → cat.Keeps ticket) :
    cat.Runs generation := by
  obtain ⟨ticket, hticket, hrunning, hgeneration⟩ := h
  exact ⟨ticket, hkeeps ticket hticket hrunning, hrunning, hgeneration⟩

theorem keeps_insert {superseded : List ScanTicket}
    (h : { cat with superseded, tickets := cat.tickets.insert t ticket }.Keeps ticket')
    (hsuperseded : ∀ old ∈ superseded, cat.Keeps old) :
    ticket' = ticket ∨ cat.Keeps ticket' := by
  rcases h with hmem | ⟨t', ht'⟩
  · exact .inr (hsuperseded _ hmem)
  · rw [Std.ExtTreeMap.getElem?_insert] at ht'
    split at ht'
    · exact .inl (Option.some.inj ht').symm
    · exact .inr (.inr ⟨t', ht'⟩)

theorem keeps_map {f : ScanTicket → ScanTicket} {superseded : List ScanTicket}
    (h : { cat with superseded, tickets := cat.tickets.map fun _ => f }.Keeps ticket) :
    ticket ∈ superseded ∨ ∃ old, cat.Keeps old ∧ f old = ticket := by
  rcases h with hmem | ⟨t, ht⟩
  · exact .inl hmem
  · rw [Std.ExtTreeMap.getElem?_map] at ht
    obtain ⟨old, hold, heq⟩ := Option.map_eq_some_iff.1 ht
    exact .inr ⟨old, .inr ⟨t, hold⟩, heq⟩

theorem runs_launch (h : (cat.launch t).2.Runs generation) :
    generation = (cat.launch t).1.generation ∨ cat.Runs generation := by
  obtain ⟨ticket, hticket, hrunning, rfl⟩ := h
  have hold : ∀ old ∈ (cat.launch t).2.superseded, cat.Keeps old := by
    intro old hmem
    unfold launch at hmem
    dsimp only at hmem
    split at hmem
    · rename_i newest hnewest
      rcases List.mem_append.1 hmem with hmem | hmem
      · exact .inl (List.mem_filter.1 hmem).1
      · exact .inr ⟨t, List.mem_singleton.1 hmem ▸ hnewest⟩
    · exact .inl hmem
  rcases keeps_insert hticket hold with rfl | hkeeps
  · exact .inl rfl
  · exact .inr ⟨ticket, hkeeps, hrunning, rfl⟩

theorem runs_workerExited {r : StartedScan} {panicked : Bool}
    (h : (cat.workerExited r panicked).Runs generation) :
    generation ≠ r.generation ∧ cat.Runs generation := by
  obtain ⟨ticket, hticket, hrunning, rfl⟩ := h
  obtain ⟨old, hold, rfl⟩ : ∃ old, cat.Keeps old ∧
      ScanTicket.workerExited r.generation panicked old = ticket := by
    rcases keeps_map hticket with hmem | hkept
    · obtain ⟨old, hold, heq⟩ := List.mem_map.1 hmem
      exact ⟨old, .inl hold, heq⟩
    · exact hkept
  rw [ScanTicket.workerExited] at hrunning ⊢
  split at hrunning
  · simp [ScanTicket.isRunning] at hrunning
  · rename_i hne
    rw [if_neg hne]
    exact ⟨hne, old, hold, hrunning, rfl⟩

theorem runs_awaitType (hawait : cat.awaitType t = some cat') (h : cat'.Runs generation) :
    cat.Runs generation := by
  unfold awaitType at hawait
  split at hawait
  · exact Option.some.inj hawait ▸ h
  · split at hawait
    · simp at hawait
    · obtain rfl := Option.some.inj hawait
      refine h.of_keeps fun ticket hticket hrunning => ?_
      rcases keeps_insert hticket fun old hold => .inl hold with rfl | hkeeps
      · simp [ScanTicket.isRunning, ScanTicket.joined] at hrunning
      · exact hkeeps

/-- A worker that has been joined does not run. -/
theorem runs_joined {superseded : List ScanTicket} (hsub : superseded ⊆ cat.superseded)
    (h : { cat with
      superseded, tickets := cat.tickets.map fun _ => ScanTicket.joined }.Runs generation) :
    cat.Runs generation := by
  refine h.of_keeps fun ticket hticket hrunning => ?_
  rcases keeps_map hticket with hmem | ⟨old, -, rfl⟩
  · exact .inl (hsub hmem)
  · simp [ScanTicket.isRunning, ScanTicket.joined] at hrunning

theorem runs_awaitAll (hawait : cat.awaitAll = some cat') (h : cat'.Runs generation) :
    cat.Runs generation := by
  obtain ⟨joined, hjoin, rfl⟩ := Option.map_eq_some_iff.1 hawait
  obtain ⟨_, -, rfl⟩ := Option.map_eq_some_iff.1 hjoin
  exact runs_joined (List.Subset.refl _) h

theorem runs_joinEvery (hjoin : (cat.joinEvery order).map Prod.snd = some cat')
    (h : cat'.Runs generation) : cat.Runs generation := by
  obtain ⟨joined, hjoined, rfl⟩ := Option.map_eq_some_iff.1 hjoin
  obtain ⟨_, -, rfl⟩ := Option.map_eq_some_iff.1 hjoined
  exact runs_joined (List.nil_subset _) h

/-! ## Nobody has to wait -/

theorem isRunning_of_keeps (hended : ∀ generation, ¬ cat.Runs generation)
    (hkeeps : cat.Keeps ticket) : ticket.isRunning = false :=
  Bool.eq_false_iff.2 fun hrunning => hended _ ⟨ticket, hkeeps, hrunning, rfl⟩

theorem isSome_awaitType (hended : ∀ generation, ¬ cat.Runs generation) (t : DeclType) :
    (cat.awaitType t).isSome = true := by
  unfold awaitType
  split
  · rfl
  · rename_i ticket hticket
    have hjoin := ticket.isSome_join?
    rw [isRunning_of_keeps hended (.inr ⟨t, hticket⟩)] at hjoin
    obtain ⟨result, hresult⟩ := Option.isSome_iff_exists.1 hjoin
    rw [hresult]
    rfl

theorem isSome_joinCurrent (hended : ∀ generation, ¬ cat.Runs generation)
    (order : TableOrder DeclType) : (cat.joinCurrent order).isSome = true := by
  unfold joinCurrent
  rw [Option.isSome_map, ScanTicket.isSome_joinAll_iff]
  exact fun ticket hticket => isRunning_of_keeps hended (.inr (mem_currentScans.1 hticket))

theorem isSome_joinEvery (hended : ∀ generation, ¬ cat.Runs generation)
    (order : TableOrder DeclType) : (cat.joinEvery order).isSome = true := by
  unfold joinEvery
  rw [Option.isSome_map, ScanTicket.isSome_joinAll_iff]
  exact fun ticket hticket =>
    isRunning_of_keeps hended ((List.mem_append.1 hticket).imp id mem_currentScans.1)

end Catalogue

namespace System

variable {s s' : System}

/-- The scans in progress. -/
def inProgress (s : System) : List StartedScan :=
  s.scans ++ s.leaving

/-- No scan is in progress. -/
def Idle (s : System) : Prop :=
  s.inProgress = []

/-- Every worker that runs is that of a scan in progress. -/
def Attended (s : System) : Prop :=
  ∀ generation, s.catalogue.Runs generation → ∃ r ∈ s.inProgress, r.generation = generation

namespace Attended

theorem perm_cons_eraseIdx {α : Type} {l : List α} {i : Nat} {a : α} (h : l[i]? = some a) :
    (a :: l.eraseIdx i).Perm l := by
  obtain ⟨hi, rfl⟩ := List.getElem?_eq_some_iff.1 h
  exact List.getElem_cons_eraseIdx_perm hi

theorem of_runs (h : s.Attended)
    (hruns : ∀ generation, s'.catalogue.Runs generation → s.catalogue.Runs generation)
    (hscans : ∀ r ∈ s.inProgress, ∃ r' ∈ s'.inProgress, r'.generation = r.generation) :
    s'.Attended := by
  intro generation hgeneration
  obtain ⟨r, hr, rfl⟩ := h generation (hruns generation hgeneration)
  exact hscans r hr

theorem of_catalogue (h : s.Attended) {cat : Catalogue}
    (hruns : ∀ generation, cat.Runs generation → s.catalogue.Runs generation) :
    { s with catalogue := cat }.Attended :=
  h.of_runs hruns fun r hr => ⟨r, hr, rfl⟩

theorem become (h : s.Attended) {cat? : Option Catalogue}
    (hcat : ∀ cat, cat? = some cat →
      ∀ generation, cat.Runs generation → s.catalogue.Runs generation) :
    (s.become cat?).Attended := by
  cases cat? with
  | none => exact h
  | some cat => exact h.of_catalogue (hcat cat rfl)

/-- A scan that is started has a worker of its own. -/
theorem start (h : s.Attended) {started : List StartedScan × Catalogue}
    (hstarted : ∀ generation, started.2.Runs generation →
      (∃ r ∈ started.1, r.generation = generation) ∨ s.catalogue.Runs generation) :
    (s.start started).Attended := by
  intro generation hgeneration
  show ∃ r ∈ (s.scans ++ started.1) ++ s.leaving, r.generation = generation
  rcases hstarted generation hgeneration with ⟨r, hr, heq⟩ | hruns
  · exact ⟨r, by simp [hr], heq⟩
  · obtain ⟨r, hr, heq⟩ := h generation hruns
    rcases List.mem_append.1 hr with hr | hr
    · exact ⟨r, by simp [hr], heq⟩
    · exact ⟨r, by simp [hr], heq⟩

/-- When a worker ends, the others are still attended. -/
theorem workerExited (h : s.Attended) {r : StartedScan} {panicked : Bool}
    {scans leaving : List StartedScan}
    (hscans : ∀ r' ∈ s.inProgress, r' = r ∨ r' ∈ scans ++ leaving) :
    Attended { s with catalogue := s.catalogue.workerExited r panicked, scans, leaving } := by
  intro generation hgeneration
  obtain ⟨hne, hruns⟩ := Catalogue.runs_workerExited hgeneration
  obtain ⟨r', hr', rfl⟩ := h generation hruns
  rcases hscans r' hr' with rfl | hr'
  · exact absurd rfl hne
  · exact ⟨r', hr', rfl⟩

theorem launch (h : s.Attended) (t : DeclType) {folders : List DeclFolder} :
    (s.start (({ s.catalogue with folders }.launch t).map ([·]) id)).Attended := by
  refine h.start fun generation hgeneration => ?_
  rcases Catalogue.runs_launch hgeneration with rfl | hruns
  · exact .inl ⟨_, List.mem_singleton_self _, rfl⟩
  · exact .inr hruns

theorem rescan (h : s.Attended) : (s.start s.catalogue.rescan).Attended := by
  refine h.start ?_
  unfold Catalogue.rescan
  refine List.foldlRecOn (motive := fun sc : List StartedScan × Catalogue => ∀ generation,
    sc.2.Runs generation →
      (∃ r ∈ sc.1, r.generation = generation) ∨ s.catalogue.Runs generation) _ _ ?_ ?_
  · exact fun generation hruns => .inr hruns
  · intro sc hsc t _ generation hgeneration
    rcases Catalogue.runs_launch hgeneration with rfl | hruns
    · exact .inl ⟨_, List.mem_append_right _ (List.mem_singleton_self _), rfl⟩
    · exact (hsc generation hruns).imp_left fun ⟨r, hr, heq⟩ =>
        ⟨r, List.mem_append_left _ hr, heq⟩

theorem advance (h : s.Attended) (index : Nat) (access : FileAccess) :
    (s.advance index access).Attended := by
  rw [System.advance_eq]
  cases hr : s.scans[index]? with
  | none => exact h
  | some r =>
    have hperm := perm_cons_eraseIdx hr
    dsimp only
    cases r.scan.step access s.catalogue.bindings with
    | running scan =>
      refine h.of_runs (fun _ hruns => hruns) fun r' hr' => ?_
      obtain ⟨hindex, -⟩ := List.getElem?_eq_some_iff.1 hr
      have hset := List.set_perm_cons_eraseIdx hindex { r with scan }
      rcases List.mem_append.1 hr' with hr' | hr'
      · rcases List.mem_cons.1 (hperm.mem_iff.2 hr') with rfl | hr'
        · exact ⟨_, List.mem_append_left _ (hset.mem_iff.2 List.mem_cons_self), rfl⟩
        · exact ⟨r', List.mem_append_left _
            (hset.mem_iff.2 (List.mem_cons_of_mem _ hr')), rfl⟩
      · exact ⟨r', List.mem_append_right _ hr', rfl⟩
    | finished found =>
      refine h.of_runs (fun generation hruns => ?_) fun r' hr' => ⟨r', ?_, rfl⟩
      · have hruns : (s.catalogue.completeScan r found).1.Runs generation := hruns
        unfold Catalogue.completeScan at hruns
        split at hruns <;> exact hruns
      · show r' ∈ s.scans.eraseIdx index ++ (s.leaving ++ [r])
        have hmem := (hperm.append_right s.leaving).mem_iff.2 hr'
        simp only [List.cons_append, List.mem_cons, List.mem_append] at hmem ⊢
        tauto
    | crashed =>
      refine h.workerExited fun r' hr' => ?_
      exact List.mem_cons.1 ((hperm.append_right s.leaving).mem_iff.2 hr')

theorem leave (h : s.Attended) (index : Nat) : (s.leave index).Attended := by
  unfold System.leave
  cases hr : s.leaving[index]? with
  | none => exact h
  | some r =>
    refine h.workerExited fun r' hr' => ?_
    have hmem := ((perm_cons_eraseIdx hr).append_left s.scans).mem_iff.2 hr'
    exact List.mem_cons.1 (List.perm_middle.mem_iff.1 hmem)

/-- Every event leaves the workers attended. -/
theorem perform (h : s.Attended) (e : Event) : (s.perform e).Attended := by
  cases e with
  | bind keyword c =>
    show (s.bind keyword c).Attended
    unfold System.bind
    split
    · exact h
    · exact h.of_runs (fun _ hruns => hruns) fun r hr => ⟨r, hr, rfl⟩
  | retry =>
    show s.retry.Attended
    rw [System.retry_eq]
    split
    · exact h
    · exact h.of_runs (fun _ hruns => hruns) fun r hr => ⟨r, hr, rfl⟩
  | unbind keyword order =>
    show (s.unbind keyword order).Attended
    unfold System.unbind Catalogue.unbindType
    cases s.catalogue.bindings.unbindKeyword keyword order with
    | error _ => exact h
    | ok _ => exact h.of_catalogue fun _ hruns => hruns
  | addFolder t folder extension => exact h.launch t
  | rescan => exact h.rescan
  | findOrCreate t name =>
    show (s.findOrCreate t name).Attended
    unfold System.findOrCreate
    split
    · exact h
    · rename_i hmade
      rcases Catalogue.findOrCreate_cases hmade with rfl | ⟨c, -, rfl⟩
      · exact h
      · exact h.of_catalogue fun _ hruns => hruns
  | advance index access => exact h.advance index access
  | leave index => exact h.leave index
  | await t => exact h.become fun _ hawait _ => Catalogue.runs_awaitType hawait
  | awaitAll => exact h.become fun _ hawait _ => Catalogue.runs_awaitAll hawait
  | joinEvery => exact h.become fun _ hjoin _ => Catalogue.runs_joinEvery hjoin
  | remove _ _ | setBlock _ _ | connect _ _ | disconnect _ _ =>
    exact h.of_catalogue fun _ hruns => hruns

end Attended

theorem Reachable.attended (h : s.Reachable) : s.Attended := by
  induction h with
  | start limits =>
    rintro generation ⟨ticket, hmem | ⟨t, ht⟩, -⟩
    · exact absurd hmem List.not_mem_nil
    · exact absurd ht (by simp)
  | perform _ e ih => exact ih.perform e

/-- No worker runs in an idle system. -/
theorem Idle.not_runs (hidle : s.Idle) (hs : s.Reachable) (generation : Nat) :
    ¬ s.catalogue.Runs generation := by
  intro hruns
  obtain ⟨r, hr, -⟩ := hs.attended generation hruns
  rw [hidle] at hr
  exact absurd hr List.not_mem_nil

/-! ## What callers are told -/

/-- What the caller of an event is told, where the newest scans are joined in some order. -/
def reply (s : System) (order : TableOrder DeclType) : Event → Session.Reply
  | .bind keyword c => .ofResult ((s.catalogue.bindings.bindKeyword keyword c).map fun _ => ())
  | .unbind keyword order => .ofResult ((s.catalogue.unbindType keyword order).map fun _ => ())
  | .addFolder .. | .rescan => .done
  | .findOrCreate t name =>
    match s.catalogue.findOrCreate t name with
    | .error e => .failed e
    | .ok (handle, _) => .number handle
  | .remove t name => .truth (s.catalogue.remove t name).1
  | .await t => (s.catalogue.awaitType t).elim .wouldBlock fun _ => .done
  | .awaitAll => ((s.catalogue.joinCurrent order).map Prod.fst).elim .wouldBlock .ofResult
  | .joinEvery => ((s.catalogue.joinEvery order).map Prod.fst).elim .wouldBlock .ofResult
  | .connect t watcher => .number (s.catalogue.connect t watcher).1
  | .disconnect t id => .truth (s.catalogue.disconnect t id).1
  | .retry | .setBlock .. | .advance .. | .leave _ => .nothing

/-- The caller of an event may be told this. The stores may be come by in any order, and in another
one once a store more has been opened. -/
def Replies (s : System) (e : Event) (told : Session.Reply) : Prop :=
  ∃ order, s.reply order e = told

theorem ofResult_ne_wouldBlock (result : Except Failure Unit) :
    Session.Reply.ofResult result ≠ .wouldBlock := by
  cases result <;> simp [Session.Reply.ofResult]

theorem ofResult_eq_failed_iff {result : Except Failure Unit} {e : Failure} :
    Session.Reply.ofResult result = .failed e ↔ result = .error e := by
  cases result <;> simp [Session.Reply.ofResult]

/-- Where no scan is in progress nobody has to wait for one. -/
theorem Idle.not_wouldBlock (hidle : s.Idle) (hs : s.Reachable) (e : Event) :
    ¬ s.Replies e .wouldBlock := by
  rintro ⟨order, h⟩
  have hended := hidle.not_runs hs
  unfold reply at h
  cases e with
  | bind keyword c => exact ofResult_ne_wouldBlock _ h
  | unbind keyword order => exact ofResult_ne_wouldBlock _ h
  | findOrCreate t name =>
    dsimp only at h
    split at h <;> simp at h
  | await t =>
    obtain ⟨cat, hcat⟩ := Option.isSome_iff_exists.1 (Catalogue.isSome_awaitType hended t)
    simp [hcat] at h
  | awaitAll =>
    obtain ⟨⟨result, cat⟩, hjoin⟩ :=
      Option.isSome_iff_exists.1 (Catalogue.isSome_joinCurrent hended order)
    rw [hjoin] at h
    exact ofResult_ne_wouldBlock result h
  | joinEvery =>
    obtain ⟨⟨result, cat⟩, hjoin⟩ :=
      Option.isSome_iff_exists.1 (Catalogue.isSome_joinEvery hended order)
    rw [hjoin] at h
    exact ofResult_ne_wouldBlock result h
  | _ => simp at h

/-- Whoever waits for the newest scans of all types may be told of any panic that nobody has heard
of, and of nothing else. -/
theorem Idle.replies_awaitAll_iff (hidle : s.Idle) (hs : s.Reachable) {e : Failure} :
    s.Replies .awaitAll (.failed e) ↔ ∃ (t : DeclType) (ticket : ScanTicket),
      s.catalogue.tickets[t]? = some ticket ∧ ticket.join? = some (.error e) := by
  have htold : ∀ result? : Option (Except Failure Unit),
      result?.elim .wouldBlock Session.Reply.ofResult = .failed e ↔ result? = some (.error e) := by
    rintro (- | result)
    · simp
    · exact ofResult_eq_failed_iff.trans Option.some_inj.symm
  have hended : s.catalogue.awaitAll.isSome = true := by
    rw [Catalogue.awaitAll, Option.isSome_map]
    exact Catalogue.isSome_joinCurrent (hidle.not_runs hs) .listed
  rw [← Catalogue.exists_joinCurrent_error_iff hended]
  exact exists_congr fun order => htold _

end System

end AssetDecl
