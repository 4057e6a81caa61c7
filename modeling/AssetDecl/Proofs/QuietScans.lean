import AssetDecl.Proofs.IdleSystem
import AssetDecl.Proofs.TypeStores

/-!
# Scans that have been waited for

Whoever waits for a scan that has ended well leaves a trace on its ticket, which nobody finds out:
not who reads or joins anything (`System.view_quiet`, `System.replies_quiet`), and not what is done
later (`System.quiet_perform`). Only a panic that nobody has heard of makes a difference
(`System.quiet_await`).
-/

namespace AssetDecl

/-! ## Scans that have ended well -/

namespace ScanTicket

/-- The ticket with a worker that has ended well counted as joined. -/
def quiet (ticket : ScanTicket) : ScanTicket :=
  match ticket.worker with
  | .exited false => ticket.joined
  | _ => ticket

variable (ticket : ScanTicket)

theorem quiet_cases :
    ticket.quiet = ticket ∨ ticket.worker = .exited false ∧ ticket.quiet = ticket.joined := by
  unfold quiet
  split
  · rename_i h
    exact .inr ⟨h, rfl⟩
  · exact .inl rfl

@[simp] theorem quiet_joined : ticket.joined.quiet = ticket.joined := rfl

@[simp] theorem quiet_quiet : ticket.quiet.quiet = ticket.quiet := by
  rcases ticket.quiet_cases with h | ⟨-, h⟩
  · rw [h, h]
  · rw [h, quiet_joined]

@[simp] theorem joined_quiet : ticket.quiet.joined = ticket.joined := by
  rcases ticket.quiet_cases with h | ⟨-, h⟩ <;> rw [h]
  rfl

@[simp] theorem generation_quiet : ticket.quiet.generation = ticket.generation := by
  rcases ticket.quiet_cases with h | ⟨-, h⟩ <;> rw [h]
  rfl

@[simp] theorem join?_quiet : ticket.quiet.join? = ticket.join? := by
  rcases ticket.quiet_cases with h | ⟨hworker, h⟩ <;> rw [h]
  unfold join?
  rw [hworker]
  rfl

@[simp] theorem isRunning_quiet : ticket.quiet.isRunning = ticket.isRunning := by
  rcases ticket.quiet_cases with h | ⟨hworker, h⟩ <;> rw [h]
  unfold isRunning
  rw [hworker]
  rfl

@[simp] theorem sight_quiet : ticket.quiet.sight = ticket.sight := by
  unfold sight
  rw [generation_quiet, join?_quiet]

@[simp] theorem quiet_workerExited (generation : Nat) (panicked : Bool) :
    (ticket.quiet.workerExited generation panicked).quiet =
      (ticket.workerExited generation panicked).quiet := by
  rcases ticket.quiet_cases with h | ⟨-, h⟩
  · rw [h]
  · have hjoined : ticket.joined.generation = ticket.generation := rfl
    rw [h, workerExited, workerExited, hjoined]
    split
    · rfl
    · rw [← h, quiet_quiet]

/-- Nobody can tell that a scan has been waited for that has not panicked unheard. -/
theorem quiet_eq_joined (hended : ticket.join?.isSome) (h : ticket.worker ≠ .exited true) :
    ticket.quiet = ticket.joined := by
  obtain ⟨t, generation, worker⟩ := ticket
  cases worker with
  | running => exact absurd hended (by simp [join?])
  | exited panicked =>
    cases panicked with
    | true => exact absurd rfl h
    | false => rfl
  | joined => rfl

theorem joinAll_map_quiet (tickets : List ScanTicket) :
    joinAll (tickets.map quiet) = joinAll tickets := by
  induction tickets with
  | nil => rfl
  | cons ticket rest ih => rw [List.map_cons, joinAll, joinAll, join?_quiet, ih]

end ScanTicket

namespace Catalogue

/-- The catalogue with every scan that has ended well counted as waited for. -/
def quiet (cat : Catalogue) : Catalogue :=
  { cat with
    tickets := cat.tickets.map fun _ ticket => ticket.quiet
    superseded := cat.superseded.map ScanTicket.quiet }

variable (cat : Catalogue) (t : DeclType)

@[simp] theorem getElem?_tickets_quiet :
    cat.quiet.tickets[t]? = cat.tickets[t]?.map ScanTicket.quiet :=
  Std.ExtTreeMap.getElem?_map

theorem currentScans_quiet (order : TableOrder DeclType) :
    cat.quiet.currentScans order = (cat.currentScans order).map ScanTicket.quiet := by
  have hkeys : cat.quiet.tickets.keys = cat.tickets.keys := Std.ExtTreeMap.keys_map
  unfold currentScans
  rw [hkeys, List.map_filterMap]
  exact List.filterMap_congr fun t _ => cat.getElem?_tickets_quiet t

@[simp] theorem values_tickets_quiet :
    cat.quiet.tickets.values = cat.tickets.values.map ScanTicket.quiet := by
  show (cat.tickets.map _).values = _
  rw [values_eq_map_toList, values_eq_map_toList, Std.ExtTreeMap.toList_map, List.map_map,
    List.map_map]
  rfl

theorem map_quiet_insert (tickets : Std.ExtTreeMap DeclType ScanTicket) (ticket : ScanTicket) :
    (tickets.insert t ticket).map (fun _ ticket => ticket.quiet) =
      (tickets.map fun _ ticket => ticket.quiet).insert t ticket.quiet := by
  refine Std.ExtTreeMap.ext_getElem? fun t' => ?_
  rw [Std.ExtTreeMap.getElem?_map, Std.ExtTreeMap.getElem?_insert, Std.ExtTreeMap.getElem?_insert,
    Std.ExtTreeMap.getElem?_map]
  split <;> rfl

@[simp] theorem quiet_quiet : cat.quiet.quiet = cat.quiet := by
  unfold quiet
  simp [Std.ExtTreeMap.map_map]

theorem bindings_quiet : cat.quiet.bindings = cat.bindings := rfl

theorem store_quiet : cat.quiet.store = cat.store := rfl

/-! ## What a catalogue does -/

theorem isCurrent_quiet (r : StartedScan) : cat.quiet.isCurrent r = cat.isCurrent r := by
  rw [isCurrent_eq, isCurrent_eq, getElem?_tickets_quiet, Option.any_map]
  simp

theorem retryWaiting_quiet (changed : TypeSet) :
    cat.quiet.retryWaiting changed = (cat.retryWaiting changed).map quiet id := rfl

theorem completeScan_quiet (r : StartedScan) (f : Findings) :
    cat.quiet.completeScan r f = (cat.completeScan r f).map quiet id := by
  unfold completeScan
  rw [isCurrent_quiet]
  split <;> rfl

theorem quiet_workerExited (r : StartedScan) (panicked : Bool) :
    (cat.quiet.workerExited r panicked).quiet = (cat.workerExited r panicked).quiet := by
  unfold quiet workerExited
  simp [Std.ExtTreeMap.map_map]

theorem launch_quiet : cat.quiet.launch t = (cat.launch t).map id quiet := by
  have hrunning : ∀ old : List ScanTicket, (old.map ScanTicket.quiet).filter ScanTicket.isRunning =
      (old.filter ScanTicket.isRunning).map ScanTicket.quiet := by
    intro old
    rw [List.filter_map]
    refine congrArg _ (List.filter_congr fun ticket _ => ?_)
    exact ticket.isRunning_quiet
  unfold launch
  rw [getElem?_tickets_quiet]
  dsimp only [Prod.map_apply, quiet]
  rw [map_quiet_insert]
  cases cat.tickets[t]? with
  | none => rfl
  | some old =>
    dsimp only [Option.map_some]
    rw [hrunning, List.map_append]
    rfl

theorem addFolder_quiet (folder extension : String) :
    cat.quiet.addFolder t folder extension =
      (cat.addFolder t folder extension).map id quiet := by
  unfold addFolder
  exact launch_quiet { cat with folders := _ } t

theorem rescan_quiet : cat.quiet.rescan = cat.rescan.map id quiet := by
  unfold rescan
  refine @List.foldl_hom _ _ _ (Prod.map id quiet) _ _ cat.defaultTypes ([], cat) fun sc t => ?_
  dsimp only
  rw [Prod.map_snd, launch_quiet]
  rfl

theorem awaitType_quiet : cat.quiet.awaitType t = (cat.awaitType t).map quiet := by
  unfold awaitType
  rw [getElem?_tickets_quiet]
  cases cat.tickets[t]? with
  | none => rfl
  | some ticket =>
    dsimp only [Option.map_some]
    rw [ScanTicket.join?_quiet, ScanTicket.joined_quiet]
    cases ticket.join? with
    | none => rfl
    | some result =>
      dsimp only [Option.map_some, quiet]
      rw [map_quiet_insert, ScanTicket.quiet_joined]

theorem joinCurrent_quiet (order : TableOrder DeclType) :
    cat.quiet.joinCurrent order = (cat.joinCurrent order).map (Prod.map id quiet) := by
  unfold joinCurrent
  rw [currentScans_quiet, ScanTicket.joinAll_map_quiet, Option.map_map]
  congr 1
  funext result
  simp [quiet, Std.ExtTreeMap.map_map]

theorem awaitAll_quiet : cat.quiet.awaitAll = cat.awaitAll.map quiet := by
  unfold awaitAll
  rw [joinCurrent_quiet, Option.map_map, Option.map_map]
  rfl

theorem joinEvery_quiet (order : TableOrder DeclType) :
    cat.quiet.joinEvery order = (cat.joinEvery order).map (Prod.map id quiet) := by
  have hjoin : ScanTicket.joinAll (cat.quiet.superseded ++ cat.quiet.currentScans order) =
      ScanTicket.joinAll (cat.superseded ++ cat.currentScans order) := by
    rw [currentScans_quiet, ← ScanTicket.joinAll_map_quiet (cat.superseded ++ _),
      List.map_append]
    rfl
  unfold joinEvery
  rw [hjoin, Option.map_map]
  congr 1
  funext result
  simp [quiet, Std.ExtTreeMap.map_map]

theorem map_snd_joinEvery_quiet (order : TableOrder DeclType) :
    (cat.quiet.joinEvery order).map Prod.snd =
      ((cat.joinEvery order).map Prod.snd).map quiet := by
  rw [joinEvery_quiet, Option.map_map, Option.map_map]
  rfl

theorem unbindType_quiet (keyword : String) (order : TableOrder String) :
    cat.quiet.unbindType keyword order = (cat.unbindType keyword order).map quiet := by
  unfold unbindType
  rw [bindings_quiet]
  cases cat.bindings.unbindKeyword keyword order <;> rfl

theorem findOrCreate_quiet (name : String) :
    cat.quiet.findOrCreate t name = (cat.findOrCreate t name).map (Prod.map id quiet) := by
  unfold findOrCreate
  rw [store_quiet, bindings_quiet]
  cases cat.store.find? t name with
  | some handle => rfl
  | none => cases cat.bindings.typeCreator? t <;> rfl

theorem plainReadings_quiet : cat.quiet.plainReadings = cat.plainReadings := by
  have hscan : (fun t : DeclType => cat.quiet.tickets[t]?.map ScanTicket.sight) =
      fun t => cat.tickets[t]?.map ScanTicket.sight := by
    funext t
    rw [getElem?_tickets_quiet, Option.map_map]
    exact congrFun (congrArg _ (funext ScanTicket.sight_quiet)) _
  have hscans : cat.quiet.tickets.values.map ScanTicket.sight =
      cat.tickets.values.map ScanTicket.sight := by
    rw [values_tickets_quiet, List.map_map]
    exact List.map_congr_left fun ticket _ => ticket.sight_quiet
  unfold plainReadings
  rw [hscan, hscans]
  rfl

/-- Some scan of the type is the newest, has panicked and has not been waited for. -/
def Unheard (cat : Catalogue) (t : DeclType) : Prop :=
  cat.tickets[t]?.map ScanTicket.worker = some (.exited true)

instance : Decidable (cat.Unheard t) := inferInstanceAs (Decidable (_ = _))

variable {cat t} in
/-- Waiting for a scan that has ended changes nothing unless it has panicked unheard. -/
theorem quiet_of_awaitType {cat' : Catalogue} (hawait : cat.awaitType t = some cat')
    (h : ¬ cat.Unheard t) : cat'.quiet = cat.quiet := by
  unfold awaitType at hawait
  split at hawait
  · rw [Option.some.inj hawait]
  · rename_i ticket hticket
    split at hawait
    · simp at hawait
    · rename_i result hresult
      obtain rfl := Option.some.inj hawait
      have hworker : ticket.worker ≠ .exited true := fun hworker =>
        h (by rw [Unheard, hticket, ← hworker]; rfl)
      have hquiet : ticket.quiet = ticket.joined :=
        ticket.quiet_eq_joined (Option.isSome_iff_exists.2 ⟨result, hresult⟩) hworker
      unfold quiet
      congr 1
      refine Std.ExtTreeMap.ext_getElem? fun t' => ?_
      dsimp only
      rw [map_quiet_insert, ScanTicket.quiet_joined, Std.ExtTreeMap.getElem?_insert]
      split
      · rename_i ht
        rw [DeclType.compare_eq_eq] at ht
        rw [← ht, Std.ExtTreeMap.getElem?_map, hticket, ← hquiet]
        rfl
      · rfl

end Catalogue

namespace System

variable (s : System)

/-! ## What a system does -/

/-- The system with every scan that has ended well counted as waited for. -/
def quiet : System :=
  { s with catalogue := s.catalogue.quiet }

theorem catalogue_quiet : s.quiet.catalogue = s.catalogue.quiet := rfl

theorem scans_quiet : s.quiet.scans = s.scans := rfl

theorem leaving_quiet : s.quiet.leaving = s.leaving := rfl

theorem owed_quiet : s.quiet.owed = s.owed := rfl

@[simp] theorem quiet_quiet : s.quiet.quiet = s.quiet := by
  unfold quiet
  rw [Catalogue.quiet_quiet]

theorem changes_quiet (e : Event) : s.quiet.changes e = s.changes e := by
  cases e with
  | retry =>
    show s.quiet.retryTelling.2 = s.retryTelling.2
    unfold retryTelling
    rw [owed_quiet, catalogue_quiet, Catalogue.retryWaiting_quiet]
    split <;> rfl
  | advance index access =>
    show (s.quiet.advanceTelling index access).2 = (s.advanceTelling index access).2
    unfold advanceTelling
    rw [scans_quiet, catalogue_quiet, Catalogue.bindings_quiet]
    cases s.scans[index]? with
    | none => rfl
    | some r =>
      dsimp only
      cases r.scan.step access s.catalogue.bindings with
      | running _ | crashed => rfl
      | finished found =>
        dsimp only
        rw [Catalogue.completeScan_quiet]
        rfl
  | _ => rfl

theorem reply_quiet (order : TableOrder DeclType) (e : Event) :
    s.quiet.reply order e = s.reply order e := by
  unfold reply
  rw [catalogue_quiet]
  cases e with
  | unbind keyword order =>
    dsimp only
    rw [Catalogue.unbindType_quiet]
    cases s.catalogue.unbindType keyword order <;> rfl
  | findOrCreate t name =>
    dsimp only
    rw [Catalogue.findOrCreate_quiet]
    cases s.catalogue.findOrCreate t name <;> rfl
  | await t =>
    dsimp only
    rw [Catalogue.awaitType_quiet]
    cases s.catalogue.awaitType t <;> rfl
  | awaitAll =>
    dsimp only
    rw [Catalogue.joinCurrent_quiet, Option.map_map]
    rfl
  | joinEvery =>
    dsimp only
    rw [Catalogue.joinEvery_quiet, Option.map_map]
    rfl
  | _ => rfl

theorem replies_quiet (e : Event) : s.quiet.Replies e = s.Replies e := by
  unfold Replies
  simp only [reply_quiet]

theorem become_quiet (cat? : Option Catalogue) :
    s.quiet.become (cat?.map Catalogue.quiet) = (s.become cat?).quiet := by
  cases cat? <;> rfl

theorem start_quiet (started : List StartedScan × Catalogue) :
    s.quiet.start (started.map id Catalogue.quiet) = (s.start started).quiet := rfl

theorem bind_quiet (keyword : String) (c : Creator) :
    s.quiet.bind keyword c = (s.bind keyword c).quiet := by
  unfold bind
  rw [catalogue_quiet, Catalogue.bindings_quiet]
  cases s.catalogue.bindings.bindKeyword keyword c <;> rfl

theorem retry_quiet : s.quiet.retry = s.retry.quiet := by
  rw [retry_eq, retry_eq, owed_quiet, catalogue_quiet, Catalogue.retryWaiting_quiet]
  split <;> rfl

theorem unbind_quiet (keyword : String) (order : TableOrder String) :
    s.quiet.unbind keyword order = (s.unbind keyword order).quiet := by
  unfold unbind
  rw [catalogue_quiet, Catalogue.unbindType_quiet]
  cases s.catalogue.unbindType keyword order <;> rfl

theorem findOrCreate_quiet (t : DeclType) (name : String) :
    s.quiet.findOrCreate t name = (s.findOrCreate t name).quiet := by
  unfold findOrCreate
  rw [catalogue_quiet, Catalogue.findOrCreate_quiet]
  cases s.catalogue.findOrCreate t name <;> rfl

theorem quiet_advance (index : Nat) (access : FileAccess) :
    (s.quiet.advance index access).quiet = (s.advance index access).quiet := by
  rw [advance_eq, advance_eq, scans_quiet, catalogue_quiet, Catalogue.bindings_quiet]
  cases s.scans[index]? with
  | none => exact s.quiet_quiet
  | some r =>
    dsimp only
    cases r.scan.step access s.catalogue.bindings with
    | running scan => exact quiet_quiet { s with scans := s.scans.set index { r with scan } }
    | finished found =>
      dsimp only [quiet]
      rw [Catalogue.completeScan_quiet, Prod.map_fst, Catalogue.quiet_quiet]
    | crashed =>
      dsimp only [quiet]
      rw [Catalogue.quiet_workerExited]

theorem quiet_leave (index : Nat) : (s.quiet.leave index).quiet = (s.leave index).quiet := by
  unfold leave
  rw [leaving_quiet]
  cases s.leaving[index]? with
  | none => exact s.quiet_quiet
  | some r =>
    dsimp only [quiet]
    rw [Catalogue.quiet_workerExited]

/-- Which scans have been waited for, of those that have ended well, makes no difference. -/
theorem quiet_perform (e : Event) : (s.quiet.perform e).quiet = (s.perform e).quiet := by
  have hexact : ∀ {s' : System}, s' = (s.perform e).quiet → s'.quiet = (s.perform e).quiet := by
    rintro _ rfl
    exact quiet_quiet _
  cases e with
  | bind keyword c => exact hexact (s.bind_quiet keyword c)
  | retry => exact hexact s.retry_quiet
  | unbind keyword order => exact hexact (s.unbind_quiet keyword order)
  | addFolder t folder extension =>
    refine hexact ?_
    show s.quiet.start ((s.catalogue.quiet.addFolder t folder extension).map ([·]) id) = _
    rw [Catalogue.addFolder_quiet]
    rfl
  | rescan =>
    refine hexact ?_
    show s.quiet.start s.catalogue.quiet.rescan = _
    rw [Catalogue.rescan_quiet]
    exact s.start_quiet s.catalogue.rescan
  | findOrCreate t name => exact hexact (s.findOrCreate_quiet t name)
  | remove t name => exact hexact rfl
  | setBlock handle block => exact hexact rfl
  | advance index access => exact s.quiet_advance index access
  | leave index => exact s.quiet_leave index
  | await t =>
    refine hexact ?_
    show s.quiet.become (s.catalogue.quiet.awaitType t) = _
    rw [Catalogue.awaitType_quiet]
    exact s.become_quiet (s.catalogue.awaitType t)
  | awaitAll =>
    refine hexact ?_
    show s.quiet.become s.catalogue.quiet.awaitAll = _
    rw [Catalogue.awaitAll_quiet]
    exact s.become_quiet s.catalogue.awaitAll
  | joinEvery =>
    refine hexact ?_
    show s.quiet.become ((s.catalogue.quiet.joinEvery .listed).map Prod.snd) = _
    rw [Catalogue.map_snd_joinEvery_quiet]
    exact s.become_quiet ((s.catalogue.joinEvery .listed).map Prod.snd)
  | connect t watcher => exact hexact rfl
  | disconnect t id => exact hexact rfl

theorem quiet_await {t : DeclType} (h : ¬ s.catalogue.Unheard t) :
    (s.perform (.await t)).quiet = s.quiet := by
  show (s.become (s.catalogue.awaitType t)).quiet = _
  cases hawait : s.catalogue.awaitType t with
  | none => rfl
  | some cat =>
    show { s with catalogue := cat.quiet } = _
    rw [Catalogue.quiet_of_awaitType hawait h]
    rfl

/-! ## What can be read -/

/-- What can be read at one time. -/
structure View where
  readings : Readings
  declaration? : Handle → Option Declaration
  visited : DeclType → Visited
  signals : DeclType → Signal Watcher
  waiting : List WaitingBlock
  bindings : Bindings
  folders : List DeclFolder
  limits : ScanLimits

/-- What can be read with no stores in between. -/
def view (s : System) : View where
  readings := s.catalogue.plainReadings
  declaration? := s.catalogue.store.declaration?
  visited := s.catalogue.visitedOf
  signals := s.catalogue.signalOf
  waiting := s.catalogue.waiting
  bindings := s.catalogue.bindings
  folders := s.catalogue.folders
  limits := s.catalogue.limits

theorem view_quiet : s.quiet.view = s.view := by
  unfold view
  rw [catalogue_quiet, Catalogue.plainReadings_quiet]
  rfl

end System

end AssetDecl
