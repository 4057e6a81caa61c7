import AssetDecl.Cli.Run
import AssetDecl.Proofs.ScanUnderWay

/-!
# Opened projects

A project is opened in one go: its keywords are bound, its folders added and their scans run one
after the other. That is one of the runs that a system can take (`System.Leads`), all of whose scans
read the files as they are in one tree (`Cli.exists_events_of_openProject`). Where each scan ends
within a given number of steps, the project can be computed (`Cli.openProject_of_openWithin`).
-/

namespace AssetDecl

namespace Catalogue

variable {cat : Catalogue}

theorem bindPlain_cons (cat : Catalogue) (keyword : String) (t : DeclType)
    (types : List (String × DeclType)) :
    cat.bindPlain ((keyword, t) :: types) =
      match cat.bindType keyword (.plain t) with
      | .error e => .error e
      | .ok bound => bound.1.bindPlain types := by
  unfold bindPlain
  rw [List.foldlM_cons]
  dsimp only
  cases cat.bindType keyword (.plain t) <;> rfl

/-- Without watchers nobody is told anything. -/
theorem emit_of_no_watchers (h : cat.watchers = ∅) (changed : TypeSet) :
    cat.emit changed = ([], cat) := by
  have hnone : changed.toList.filter cat.watchers.contains = [] := by
    rw [List.filter_eq_nil_iff, h]
    simp
  unfold emit
  rw [hnone]
  rfl

theorem watchers_completeScan (cat : Catalogue) (r : StartedScan) (f : Findings) :
    (cat.completeScan r f).1.watchers = cat.watchers := by
  unfold completeScan
  split <;> rfl

theorem watchers_runScan (cat : Catalogue) (access : FileAccess) (r : StartedScan) :
    (cat.runScan access r).2.watchers = cat.watchers := by
  cases hrun : r.scan.run access cat.bindings with
  | none =>
    unfold runScan
    rw [hrun]
    rfl
  | some f =>
    obtain ⟨_, _, hsame⟩ := sameButTickets_runScan hrun
    rw [hsame]
    exact watchers_completeScan cat r f

theorem watchers_bindPlain {cat' : Catalogue} (types : List (String × DeclType))
    (h : cat.bindPlain types = .ok cat') : cat'.watchers = cat.watchers := by
  induction types generalizing cat with
  | nil => rw [Except.ok.inj h]
  | cons type types ih =>
    rw [bindPlain_cons] at h
    cases hbind : cat.bindType type.1 (.plain type.2) with
    | error e => simp [hbind] at h
    | ok bound =>
      rw [hbind] at h
      refine (ih h).trans ?_
      unfold bindType at hbind
      split at hbind
      · simp at hbind
      · rw [← Except.ok.inj hbind]
        rfl

theorem watchers_addFolders (cat : Catalogue) (folders : List FolderEntry) :
    (cat.addFolders folders).2.watchers = cat.watchers := by
  unfold addFolders
  refine List.foldlRecOn (motive := fun sc : List StartedScan × Catalogue =>
    sc.2.watchers = cat.watchers) folders _ rfl ?_
  exact fun _ hsc _ _ => hsc

end Catalogue

namespace System

variable {tree : FileTree} {s s' s'' : System}

/-- A scan that takes a step opens files as they are in the tree. Which files are below a folder is
left open, and may be told differently each time. -/
def Event.ReadsFrom (tree : FileTree) : Event → Prop
  | .advance _ access => ∀ file, access.openFile file = SearchPath.openIn tree file
  | _ => True

/-- Some events lead from one system to the other, and scans read the files of the tree. -/
def Leads (tree : FileTree) (s s' : System) : Prop :=
  ∃ es : List Event, (∀ e ∈ es, e.ReadsFrom tree) ∧ es.foldl perform s = s'

theorem Leads.refl (s : System) : s.Leads tree s :=
  ⟨[], fun _ he => absurd he List.not_mem_nil, rfl⟩

theorem Leads.trans (h : s.Leads tree s') (h' : s'.Leads tree s'') : s.Leads tree s'' := by
  obtain ⟨es, hes, rfl⟩ := h
  obtain ⟨es', hes', rfl⟩ := h'
  refine ⟨es ++ es', fun e he => ?_, List.foldl_append⟩
  rcases List.mem_append.mp he with he | he
  · exact hes e he
  · exact hes' e he

theorem leads_perform (tree : FileTree) (s : System) {e : Event} (he : e.ReadsFrom tree) :
    s.Leads tree (s.perform e) :=
  ⟨[e], fun _ he' => List.mem_singleton.mp he' ▸ he, rfl⟩

/-! ## Setting up -/

theorem leads_bindPlain (types : List (String × DeclType)) {cat : Catalogue}
    (h : s.catalogue.bindPlain types = .ok cat) : s.Leads tree { s with catalogue := cat } := by
  induction types generalizing s with
  | nil =>
    obtain rfl := Except.ok.inj h
    exact .refl s
  | cons type types ih =>
    obtain ⟨keyword, t⟩ := type
    rw [Catalogue.bindPlain_cons] at h
    cases hbind : s.catalogue.bindType keyword (.plain t) with
    | error e => simp [hbind] at h
    | ok bound =>
      rw [hbind] at h
      have hbound : s.Leads tree { s with catalogue := bound.1 } := by
        rw [← retry_bind hbind]
        exact (leads_perform tree s (e := .bind keyword (.plain t)) trivial).trans
          (leads_perform tree _ (e := .retry) trivial)
      exact hbound.trans (ih (s := { s with catalogue := bound.1 }) h)

theorem start_addFolders_nil (s : System) : s.start (s.catalogue.addFolders []) = s := by
  unfold start Catalogue.addFolders
  simp

theorem start_addFolders_concat (s : System) (folders : List FolderEntry) (folder : FolderEntry) :
    s.start (s.catalogue.addFolders (folders ++ [folder])) =
      (s.start (s.catalogue.addFolders folders)).perform
        (.addFolder folder.defaultType folder.folder folder.extension) := by
  unfold Catalogue.addFolders
  rw [List.foldl_append, List.foldl_cons, List.foldl_nil]
  simp [perform, act, start]

theorem leads_addFolders (s : System) (folders : List FolderEntry) :
    s.Leads tree (s.start (s.catalogue.addFolders folders)) := by
  induction folders using List.reverseRecOn with
  | nil =>
    rw [start_addFolders_nil]
    exact .refl s
  | append_singleton folders folder ih =>
    rw [start_addFolders_concat]
    exact ih.trans (leads_perform tree _ trivial)

/-! ## Scanning -/

/-- The first scan under way moves on alone, and its worker ends. -/
theorem leads_runScan (tree : FileTree) (d : SearchPath) {r : StartedScan} {rest : List StartedScan}
    (hscans : s.scans = r :: rest) (hleaving : s.leaving = [])
    (hwatchers : s.catalogue.watchers = ∅) :
    s.Leads tree { s with
      catalogue := (s.catalogue.runScan (d.access tree) r).2
      scans := rest } := by
  obtain ⟨n, r', hgeneration, hended⟩ := exists_advances_zero (d.access tree) hscans
  have hadvances : s.Leads tree
      ((List.replicate n (.advance 0 (d.access tree))).foldl perform s) := by
    refine ⟨_, fun e he => ?_, rfl⟩
    rw [List.eq_of_mem_replicate he]
    exact fun _ => rfl
  rw [hended] at hadvances
  unfold Catalogue.runScan
  cases hrun : r.scan.run (d.access tree) s.catalogue.bindings with
  | none =>
    rw [hrun] at hadvances
    exact hadvances
  | some f =>
    rw [hrun] at hadvances
    refine hadvances.trans ?_
    have hemit : (s.catalogue.completeScan r f).1.emit (s.catalogue.completeScan r f).2 =
        ([], (s.catalogue.completeScan r f).1) :=
      Catalogue.emit_of_no_watchers ((Catalogue.watchers_completeScan _ _ _).trans hwatchers) _
    have hexited : (s.catalogue.completeScan r f).1.workerExited r' false =
        (s.catalogue.completeScan r f).1.workerExited r false := by
      unfold Catalogue.workerExited
      rw [hgeneration]
    have hleave := leads_perform tree
      { s with
        catalogue := (s.catalogue.completeScan r f).1
        scans := rest
        leaving := s.leaving ++ [r'] } (e := .leave 0) trivial
    unfold Catalogue.endScan
    dsimp only
    rw [hemit, ← hexited]
    simpa [perform, act, leave, hleaving] using hleave

theorem leads_runScans (d : SearchPath) (s : System) (hleaving : s.leaving = [])
    (hwatchers : s.catalogue.watchers = ∅) :
    s.Leads tree { s with
      catalogue := (Catalogue.runScans (d.access tree) s.catalogue s.scans).2
      scans := [] } := by
  unfold Catalogue.runScans
  generalize ([] : List String) = reports
  generalize hscans : s.scans = scans
  induction scans generalizing s reports with
  | nil =>
    rw [List.foldl_nil, ← hscans]
    exact .refl s
  | cons r rest ih =>
    have hfirst := leads_runScan tree d hscans hleaving hwatchers
    refine hfirst.trans ?_
    rw [List.foldl_cons]
    exact ih { s with catalogue := _, scans := rest } hleaving
      ((Catalogue.watchers_runScan _ _ _).trans hwatchers) _ rfl

/-- A configured catalogue and its scans. -/
theorem leads_ofConfig (tree : FileTree) {config : ProjectConfig} {started : List StartedScan}
    {cat : Catalogue} (h : Catalogue.ofConfig config = .ok (started, cat)) :
    Leads tree { catalogue := { limits := config.limits } }
      { catalogue := cat, scans := started } ∧ cat.watchers = ∅ := by
  unfold Catalogue.ofConfig at h
  dsimp only at h
  cases hplain : ({ limits := config.limits } : Catalogue).bindPlain config.types with
  | error e => simp [hplain, Except.map] at h
  | ok plain =>
    rw [hplain] at h
    have h : plain.addFolders config.folders = (started, cat) := Except.ok.inj h
    have hbound : Leads tree { catalogue := { limits := config.limits } } { catalogue := plain } :=
      leads_bindPlain config.types hplain
    have hadded : Leads tree { catalogue := plain }
        (({ catalogue := plain } : System).start (plain.addFolders config.folders)) :=
      leads_addFolders _ _
    have hwatchers := (Catalogue.watchers_addFolders plain config.folders).trans
      (Catalogue.watchers_bindPlain config.types hplain)
    rw [h] at hadded hwatchers
    exact ⟨hbound.trans hadded, hwatchers⟩

end System

/-- Opening a project is one run of a system that starts without declarations. -/
theorem Cli.exists_events_of_openProject {tree : FileTree} {root : Path} {cat : Catalogue}
    (h : openProject tree root = .ok cat) :
    ∃ (limits : ScanLimits) (es : List System.Event), (∀ e ∈ es, e.ReadsFrom tree) ∧
      (es.foldl System.perform { catalogue := { limits } }).catalogue = cat := by
  unfold openProject at h
  cases hload : ProjectConfig.load tree root with
  | error e => simp [hload, bind, Except.bind] at h
  | ok config? =>
    simp only [hload, bind, Except.bind] at h
    generalize config?.getD {} = config at h
    cases hconfig : Catalogue.ofConfig config with
    | error e => simp [hconfig] at h
    | ok configured =>
      obtain ⟨hled, hwatchers⟩ := System.leads_ofConfig tree hconfig
      have hscanned := hled.trans
        (System.leads_runScans ⟨config.searchRoots root⟩ _ rfl hwatchers)
      obtain ⟨es, hes, hrun⟩ :=
        hscanned.trans (System.leads_perform tree _ (e := .joinEvery) trivial)
      refine ⟨config.limits, es, hes, ?_⟩
      rw [hrun]
      simp only [hconfig] at h
      show (Option.map Prod.snd (Catalogue.joinEvery _ _)).getD _ = cat
      dsimp only
      cases hjoin : (Catalogue.runScans (SearchPath.access ⟨config.searchRoots root⟩ tree)
          configured.2 configured.1).2.joinEvery .listed with
      | none =>
        rw [hjoin] at h
        exact Except.ok.inj h
      | some joined =>
        obtain ⟨result, joined⟩ := joined
        rw [hjoin] at h
        cases result with
        | error e => simp [Except.map] at h
        | ok _ => exact Except.ok.inj h

/-! ## Scans of few steps -/

/-- Runs some scans one after the other, none if one of them does not end within `n` steps. -/
def Catalogue.runScansWithin (n : ℕ) (access : FileAccess) (cat : Catalogue)
    (scans : List StartedScan) : Option Catalogue :=
  scans.foldlM (fun cat r => (r.scan.steps access cat.bindings n).found?.map fun f =>
    (cat.endScan r (some f)).2) cat

theorem Catalogue.runScans_eq {n : ℕ} {access : FileAccess} {cat cat' : Catalogue}
    {scans : List StartedScan} (h : cat.runScansWithin n access scans = some cat') :
    (runScans access cat scans).2 = cat' := by
  unfold runScans
  generalize ([] : List String) = reports
  induction scans generalizing cat reports with
  | nil => exact Option.some.inj h
  | cons r scans ih =>
    unfold runScansWithin at h
    rw [List.foldlM_cons] at h
    obtain ⟨ended, hended, h⟩ := Option.bind_eq_some_iff.mp h
    obtain ⟨f, hf, rfl⟩ := Option.map_eq_some_iff.mp hended
    have hrun : (runScan access cat r).2 = (cat.endScan r (some f)).2 := by
      rw [runScan, Scan.run_of_steps hf]
    rw [List.foldl_cons]
    dsimp only
    rw [hrun]
    exact ih h _

/-- Opens a project whose scans end within `n` steps each. -/
def Cli.openWithin (n : ℕ) (tree : FileTree) (root : Path) : Option Catalogue := do
  let config := (← (ProjectConfig.load tree root).toOption).getD {}
  let configured ← (Catalogue.ofConfig config).toOption
  let scanned ← configured.2.runScansWithin n (SearchPath.access ⟨config.searchRoots root⟩ tree)
    configured.1
  let joined ← scanned.joinEvery .listed
  joined.1.toOption.map fun _ => joined.2

theorem Cli.openProject_of_openWithin {n : ℕ} {tree : FileTree} {root : Path} {cat : Catalogue}
    (h : openWithin n tree root = some cat) : openProject tree root = .ok cat := by
  have of_toOption {α : Type} {result : Except Failure α} {a : α}
      (ha : result.toOption = some a) : result = .ok a := by
    cases result with
    | error e => simp [Except.toOption] at ha
    | ok a' => exact congrArg _ (Option.some.inj ha)
  unfold openWithin at h
  obtain ⟨config?, hload, h⟩ := Option.bind_eq_some_iff.mp h
  obtain ⟨configured, hconfig, h⟩ := Option.bind_eq_some_iff.mp h
  obtain ⟨scanned, hscanned, h⟩ := Option.bind_eq_some_iff.mp h
  obtain ⟨joined, hjoin, h⟩ := Option.bind_eq_some_iff.mp h
  obtain ⟨_, hresult, rfl⟩ := Option.map_eq_some_iff.mp h
  unfold openProject
  simp only [of_toOption hload, of_toOption hconfig, bind, Except.bind,
    Catalogue.runScans_eq hscanned, hjoin, of_toOption hresult, Except.map]

end AssetDecl
