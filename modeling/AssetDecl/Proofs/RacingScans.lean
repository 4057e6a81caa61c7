import AssetDecl.Proofs.EndedScans

/-!
# Racing scans

A `Race` is a catalogue with all scans that have been started in it, in any number and of any types.
They end in any order, each of them once: completed with any findings, or dead. Of one type only the
newest scan is current, so that between its start and its end no other one is installed. The files
that it has been given at its start are therefore those of the last installed scan when it is
installed itself, and the recorded differences are those between the last two installed scans
(`Race.lastDiff_eq_between`).
-/

namespace AssetDecl

/-- How a scan has ended, if it has. -/
inductive Fate where
  | running
  | completed (found : Findings)
  | died

def Fate.ofEnd : Option Findings → Fate
  | some f => .completed f
  | none => .died

theorem Fate.ofEnd_ne_running (found : Option Findings) : ofEnd found ≠ .running := by
  cases found <;> simp [ofEnd]

structure Race where
  catalogue : Catalogue
  /-- All scans that have been started, the newest one first. -/
  scans : List (StartedScan × Fate) := []
  /-- What has been installed, in order: findings and the default type they are from. -/
  installed : List (DeclType × Findings) := []

namespace Race

inductive Move where
  | start (t : DeclType)
  /-- A running scan ends with these findings; without any it dies. -/
  | finish (index : Nat) (found : Option Findings)

def start (race : Race) (t : DeclType) : Race :=
  let (r, catalogue) := race.catalogue.launch t
  { race with catalogue, scans := (r, .running) :: race.scans }

/-- What the end of a scan installs. -/
def endInstalls (cat : Catalogue) (r : StartedScan) : Option Findings → List (DeclType × Findings)
  | some f => if cat.isCurrent r then [(r.scan.defaultType, f)] else []
  | none => []

/-- Ends a scan, unless it has ended. -/
def finish (race : Race) (index : Nat) (found : Option Findings) : Race :=
  match race.scans[index]? with
  | some (r, .running) =>
    { catalogue := (race.catalogue.endScan r found).2
      scans := race.scans.set index (r, .ofEnd found)
      installed := race.installed ++ endInstalls race.catalogue r found }
  | _ => race

def perform (race : Race) : Move → Race
  | .start t => race.start t
  | .finish index found => race.finish index found

variable {race : Race} {t : DeclType} {index : Nat} {found : Option Findings} {r r' : StartedScan}

theorem finish_eq (hr : race.scans[index]? = some (r, .running)) (found : Option Findings) :
    race.finish index found =
      { catalogue := (race.catalogue.endScan r found).2
        scans := race.scans.set index (r, .ofEnd found)
        installed := race.installed ++ endInstalls race.catalogue r found } := by
  unfold finish
  rw [hr]

/-- A scan ends that is running, or nothing happens. -/
theorem finish_cases (race : Race) (index : Nat) (found : Option Findings) :
    race.finish index found = race ∨ ∃ r, race.scans[index]? = some (r, .running) := by
  unfold finish
  split
  · rename_i r hr
    exact .inr ⟨r, hr⟩
  · exact .inl rfl

/-! ## Generations -/

/-- The scans that have been started, the newest one first. -/
def started (race : Race) : List StartedScan :=
  race.scans.map Prod.fst

theorem started_start (race : Race) (t : DeclType) :
    (race.start t).started = (race.catalogue.launch t).1 :: race.started := rfl

theorem started_finish (race : Race) (index : Nat) (found : Option Findings) :
    (race.finish index found).started = race.started := by
  rcases race.finish_cases index found with hsame | ⟨r, hr⟩
  · rw [hsame]
  · rw [finish_eq hr]
    unfold started
    apply List.ext_getElem?
    intro i
    dsimp only
    rw [List.map_set, List.getElem?_set, List.getElem?_map]
    split
    · rename_i hi
      subst hi
      rw [List.length_map, if_pos (List.getElem?_eq_some_iff.mp hr).1, hr]
      rfl
    · rfl

theorem mem_started {fate : Fate} (h : (r, fate) ∈ race.scans) : r ∈ race.started :=
  List.mem_map_of_mem h

/-- The generations of the scans descend from that of the catalogue. -/
structure Ordered (race : Race) : Prop where
  descending : race.started.Pairwise fun r r' => r'.generation < r.generation
  bounded : ∀ r ∈ race.started, r.generation ≤ race.catalogue.generation

theorem ordered_of_no_scans (cat : Catalogue) : ({ catalogue := cat } : Race).Ordered :=
  ⟨.nil, fun _ hr => absurd hr List.not_mem_nil⟩

theorem Ordered.start (h : race.Ordered) (t : DeclType) : (race.start t).Ordered := by
  constructor
  · rw [started_start, List.pairwise_cons]
    exact ⟨fun r hr => Nat.lt_succ_of_le (h.bounded r hr), h.descending⟩
  · intro r hr
    show r.generation ≤ race.catalogue.generation + 1
    rw [started_start] at hr
    rcases List.mem_cons.mp hr with rfl | hr
    · exact le_rfl
    · exact Nat.le_succ_of_le (h.bounded r hr)

theorem Ordered.finish (h : race.Ordered) (index : Nat) (found : Option Findings) :
    (race.finish index found).Ordered := by
  have hgeneration : (race.finish index found).catalogue.generation =
      race.catalogue.generation := by
    rcases race.finish_cases index found with hsame | ⟨r, hr⟩
    · rw [hsame]
    · rw [finish_eq hr]
      exact Catalogue.generation_endScan _ r found
  constructor
  · rw [started_finish]
    exact h.descending
  · rw [started_finish, hgeneration]
    exact h.bounded

theorem Ordered.perform (h : race.Ordered) (move : Move) : (race.perform move).Ordered := by
  cases move with
  | start t => exact h.start t
  | finish index found => exact h.finish index found

theorem run_start (race : Race) (moves : List Move) (t : DeclType) :
    (moves ++ [Move.start t]).foldl perform race = (moves.foldl perform race).start t := by
  rw [List.foldl_append]
  rfl

theorem mem_scans_start (race : Race) (t : DeclType) :
    ((race.catalogue.launch t).1, Fate.running) ∈ (race.start t).scans :=
  List.mem_cons_self

theorem isCurrent_start_self (race : Race) (t : DeclType) :
    (race.start t).catalogue.isCurrent (race.catalogue.launch t).1 = true :=
  Catalogue.isCurrent_launch race.catalogue t

/-- A scan that has been started before is not current any more when another one of its type is
started. -/
theorem Ordered.isCurrent_start (h : race.Ordered) (hr : r ∈ race.started) (t : DeclType) :
    (race.start t).catalogue.isCurrent r = true ↔
      t ≠ r.scan.defaultType ∧ race.catalogue.isCurrent r = true := by
  have hlt : r.generation < race.catalogue.generation + 1 := Nat.lt_succ_of_le (h.bounded r hr)
  show (race.catalogue.launch t).2.isCurrent r = true ↔ _
  rw [Catalogue.isCurrent_launch_eq]
  by_cases ht : t = r.scan.defaultType
  · rw [if_pos ht, beq_iff_eq]
    exact ⟨fun heq => absurd heq hlt.ne', fun hne => absurd ht hne.1⟩
  · rw [if_neg ht]
    exact ⟨fun hcurrent => ⟨ht, hcurrent⟩, And.right⟩

/-- Of one type, one scan at most is current. -/
theorem Ordered.index_eq (h : race.Ordered) {i j : Nat} (hr : race.started[i]? = some r)
    (hr' : race.started[j]? = some r') (hcurrent : race.catalogue.isCurrent r = true)
    (hcurrent' : race.catalogue.isCurrent r' = true)
    (htype : r.scan.defaultType = r'.scan.defaultType) : i = j := by
  have hgeneration := Catalogue.generation_eq_of_isCurrent hcurrent hcurrent' htype
  obtain ⟨hi, rfl⟩ := List.getElem?_eq_some_iff.mp hr
  obtain ⟨hj, rfl⟩ := List.getElem?_eq_some_iff.mp hr'
  have hdescending := List.pairwise_iff_getElem.mp h.descending
  rcases lt_trichotomy i j with hlt | heq | hgt
  · exact absurd hgeneration (hdescending i j hi hj hlt).ne'
  · exact heq
  · exact absurd hgeneration (hdescending j i hj hi hgt).ne

theorem isCurrent_finish (race : Race) (index : Nat) (found : Option Findings)
    (r : StartedScan) :
    (race.finish index found).catalogue.isCurrent r = race.catalogue.isCurrent r := by
  rcases race.finish_cases index found with hsame | ⟨r', hr'⟩
  · rw [hsame]
  · rw [finish_eq hr']
    exact Catalogue.isCurrent_endScan _ r' found r

/-! ## Installed files -/

/-- The files of the installed scans of a type, in the order of their installation. -/
def filesOf (race : Race) (t : DeclType) : List FileSet :=
  (race.installed.filter (·.1 = t)).map fun p => p.2.files

/-- The files of the scan of a type that was installed last. -/
def lastFiles (race : Race) (t : DeclType) : FileSet :=
  (race.filesOf t).getLast?.getD ∅

/-- The files of the scan of a type that was installed before the last one. -/
def formerFiles (race : Race) (t : DeclType) : FileSet :=
  (race.filesOf t).dropLast.getLast?.getD ∅

/-- What is recorded of the visits is up to date, and a running scan that is current has been given
the files of the last installed one. -/
structure UpToDate (race : Race) : Prop where
  visited : ∀ t, race.catalogue.visitedOf t =
    { files := race.lastFiles t, diff := .between (race.formerFiles t) (race.lastFiles t) }
  previous : ∀ r, (r, Fate.running) ∈ race.scans → race.catalogue.isCurrent r = true →
    r.previous = race.lastFiles r.scan.defaultType

theorem upToDate_of_no_scans {cat : Catalogue} (hvisited : cat.visited = ∅) :
    ({ catalogue := cat } : Race).UpToDate := by
  constructor
  · intro t
    have hnone : cat.visitedOf t = {} := by
      unfold Catalogue.visitedOf
      rw [hvisited]
      simp
    have hbetween : FileDiff.between ∅ ∅ = {} := by decide
    refine hnone.trans ?_
    show ({} : Visited) = { files := ∅, diff := .between ∅ ∅ }
    rw [hbetween]
  · exact fun r hr => absurd hr List.not_mem_nil

theorem UpToDate.start (h : race.UpToDate) (hordered : race.Ordered) (t : DeclType) :
    (race.start t).UpToDate := by
  refine ⟨h.visited, ?_⟩
  intro r hr hcurrent
  rcases List.mem_cons.mp hr with heq | hr
  · obtain rfl : r = (race.catalogue.launch t).1 := congrArg Prod.fst heq
    exact congrArg Visited.files (h.visited t)
  · rw [hordered.isCurrent_start (mem_started hr)] at hcurrent
    exact h.previous r hr hcurrent.2

/-- What runs after the end of a scan has been running before, and is not that scan. -/
theorem running_of_finish {j : Nat} (hr : race.scans[index]? = some (r, .running))
    (hj : (race.finish index found).scans[j]? = some (r', .running)) :
    index ≠ j ∧ race.scans[j]? = some (r', .running) := by
  rw [finish_eq hr] at hj
  dsimp only at hj
  rw [List.getElem?_set] at hj
  split at hj
  · split at hj
    · have hfate : Fate.ofEnd found = .running := congrArg Prod.snd (Option.some.inj hj)
      exact absurd hfate (Fate.ofEnd_ne_running found)
    · simp at hj
  · rename_i hne
    exact ⟨hne, hj⟩

/-- A scan whose end installs nothing leaves all records as they are. -/
theorem UpToDate.finish_of_nothing (h : race.UpToDate)
    (hr : race.scans[index]? = some (r, .running))
    (hsame : race.catalogue.SameButTickets (race.catalogue.endScan r found).2)
    (hinstalls : endInstalls race.catalogue r found = []) :
    (race.finish index found).UpToDate := by
  have hinstalled : (race.finish index found).installed = race.installed := by
    rw [finish_eq hr, hinstalls]
    exact List.append_nil _
  have hfiles : ∀ t, (race.finish index found).filesOf t = race.filesOf t := by
    intro t
    unfold filesOf
    rw [hinstalled]
  constructor
  · intro t
    have hvisited : (race.finish index found).catalogue.visitedOf t =
        race.catalogue.visitedOf t := by
      rw [finish_eq hr]
      exact hsame.visitedOf t
    rw [hvisited, lastFiles, formerFiles, hfiles]
    exact h.visited t
  · intro r' hr' hcurrent'
    obtain ⟨j, hj⟩ := List.mem_iff_getElem?.mp hr'
    rw [isCurrent_finish] at hcurrent'
    rw [lastFiles, hfiles]
    exact h.previous r' (List.mem_of_getElem? (running_of_finish hr hj).2) hcurrent'

theorem filesOf_finish_of_current {f : Findings}
    (hr : race.scans[index]? = some (r, .running)) (hcurrent : race.catalogue.isCurrent r = true)
    (t : DeclType) :
    (race.finish index (some f)).filesOf t =
      race.filesOf t ++ if r.scan.defaultType = t then [f.files] else [] := by
  rw [finish_eq hr]
  unfold filesOf endInstalls
  dsimp only
  rw [if_pos hcurrent, List.filter_append, List.map_append, List.filter_singleton]
  by_cases ht : r.scan.defaultType = t
  · simp [ht]
  · simp [ht]

theorem visitedOf_finish_of_current {f : Findings}
    (hr : race.scans[index]? = some (r, .running)) (hcurrent : race.catalogue.isCurrent r = true)
    (t : DeclType) :
    (race.finish index (some f)).catalogue.visitedOf t =
      if r.scan.defaultType = t then { files := f.files, diff := .between r.previous f.files }
      else race.catalogue.visitedOf t := by
  rw [finish_eq hr]
  refine ((Catalogue.sameButTickets_endScan hcurrent f).visitedOf t).trans ?_
  rw [Catalogue.installScan_eq]
  exact Catalogue.visitedOf_withFound race.catalogue r.previous f t

/-- A current scan has been given the files of the one that was installed last. -/
theorem UpToDate.finish_of_current (h : race.UpToDate) (hordered : race.Ordered) {f : Findings}
    (hr : race.scans[index]? = some (r, .running)) (hcurrent : race.catalogue.isCurrent r = true) :
    (race.finish index (some f)).UpToDate := by
  have hprevious := h.previous r (List.mem_of_getElem? hr) hcurrent
  have hfiles := filesOf_finish_of_current (f := f) hr hcurrent
  constructor
  · intro t
    rw [visitedOf_finish_of_current hr hcurrent, lastFiles, formerFiles, hfiles]
    by_cases ht : r.scan.defaultType = t
    · subst ht
      rw [if_pos rfl, if_pos rfl, List.getLast?_concat, List.dropLast_concat, hprevious]
      rfl
    · rw [if_neg ht, if_neg ht, List.append_nil]
      exact h.visited t
  · intro r' hr' hcurrent'
    obtain ⟨j, hj⟩ := List.mem_iff_getElem?.mp hr'
    obtain ⟨hne, hj⟩ := running_of_finish hr hj
    rw [isCurrent_finish] at hcurrent'
    -- Another current scan is of another type, whose files have not changed.
    have htype : r.scan.defaultType ≠ r'.scan.defaultType := by
      intro htype
      refine hne (hordered.index_eq ?_ ?_ hcurrent hcurrent' htype)
      · rw [started, List.getElem?_map, hr]
        rfl
      · rw [started, List.getElem?_map, hj]
        rfl
    rw [lastFiles, hfiles, if_neg htype, List.append_nil]
    exact h.previous r' (List.mem_of_getElem? hj) hcurrent'

theorem UpToDate.finish (h : race.UpToDate) (hordered : race.Ordered) (index : Nat)
    (found : Option Findings) : (race.finish index found).UpToDate := by
  rcases race.finish_cases index found with hsame | ⟨r, hr⟩
  · rw [hsame]
    exact h
  · cases hcurrent : race.catalogue.isCurrent r with
    | false =>
      refine h.finish_of_nothing hr
        (Catalogue.sameButTickets_endScan_of_superseded hcurrent found) ?_
      cases found with
      | none => rfl
      | some f => exact if_neg (by simp [hcurrent])
    | true =>
      cases found with
      | none => exact h.finish_of_nothing hr (Catalogue.sameButTickets_workerExited _ r true) rfl
      | some f => exact h.finish_of_current hordered hr hcurrent

theorem UpToDate.perform (h : race.UpToDate) (hordered : race.Ordered) (move : Move) :
    (race.perform move).UpToDate := by
  cases move with
  | start t => exact h.start hordered t
  | finish index found => exact h.finish hordered index found

theorem upToDate_run {cat : Catalogue} (hvisited : cat.visited = ∅) (moves : List Move) :
    (moves.foldl perform { catalogue := cat }).Ordered ∧
      (moves.foldl perform { catalogue := cat }).UpToDate := by
  refine List.foldlRecOn (motive := fun race : Race => race.Ordered ∧ race.UpToDate) moves perform
    ⟨ordered_of_no_scans cat, upToDate_of_no_scans hvisited⟩ ?_
  exact fun race h move _ => ⟨h.1.perform move, h.2.perform h.1 move⟩

/-- After any run of starts, completions and deaths, the recorded differences of a type are those
between the files of the last two installed scans, also for whoever waits for the running scan. A
running scan that is current has been given the files of the last installed one. -/
theorem lastDiff_eq_between (limits : ScanLimits) (bindings : Bindings)
    (folders : List DeclFolder) (watchers : Std.ExtTreeMap DeclType (Signal Watcher))
    (moves : List Move) (t : DeclType) :
    let race := moves.foldl perform { catalogue := { limits, bindings, folders, watchers } }
    race.catalogue.lastDiff t = .between (race.formerFiles t) (race.lastFiles t) ∧
    (∀ joined, race.catalogue.awaitType t = some joined →
      joined.lastDiff t = .between (race.formerFiles t) (race.lastFiles t)) ∧
    ∀ r, (r, Fate.running) ∈ race.scans → r.scan.defaultType = t →
      race.catalogue.isCurrent r = true → r.previous = race.lastFiles t := by
  intro race
  have hupToDate : race.UpToDate := (upToDate_run rfl moves).2
  have hdiff : race.catalogue.lastDiff t = .between (race.formerFiles t) (race.lastFiles t) :=
    congrArg Visited.diff (hupToDate.visited t)
  refine ⟨hdiff, ?_, ?_⟩
  · intro joined hjoined
    rw [← hdiff]
    exact congrArg Visited.diff ((Catalogue.sameButTickets_awaitType hjoined).visitedOf t)
  · rintro r hr rfl hcurrent
    exact hupToDate.previous r hr hcurrent

/-- A file has been renamed. Of the scans in between, one was superseded before it ended and one
died, so that the differences are those from the first scan; the next scan will start from here. -/
theorem lastDiff_eq_between_renamed :
    let t : DeclType := ⟨"material"⟩
    let old := Findings.addFile {} t {} ⟨"m/a.mtr", ⟨"/"⟩, "base", ⟨9, 0⟩⟩ [{ name := "stone" }]
    let new := Findings.addFile {} t {} ⟨"m/b.mtr", ⟨"/"⟩, "base", ⟨9, 0⟩⟩ [{ name := "stone" }]
    let history : List Move :=
      [.start t, .finish 0 (some old), .start t, .start t, .finish 1 (some {}), .finish 0 none,
        .start t, .start ⟨"skin"⟩, .finish 1 (some new)]
    let moves := history ++ [.start t]
    let race := moves.foldl perform { catalogue := {} }
    let before := history.foldl perform { catalogue := {} }
    let r := (before.catalogue.launch t).1
    race.catalogue.lastDiff t = ⟨["m/b.mtr"], ["m/a.mtr"], []⟩ ∧
      race.catalogue.lastDiff t = .between (race.formerFiles t) (race.lastFiles t) ∧
      (r, Fate.running) ∈ race.scans ∧ race.catalogue.isCurrent r = true ∧
      r.previous = race.lastFiles t := by
  intro t old new history moves race before r
  have hdiff : race.catalogue.lastDiff t = ⟨["m/b.mtr"], ["m/a.mtr"], []⟩ := by decide +kernel
  have hrace : race = before.start t := run_start _ history t
  have hrunning : (r, Fate.running) ∈ race.scans := by
    rw [hrace]
    exact before.mem_scans_start t
  have hcurrent : race.catalogue.isCurrent r = true := by
    rw [hrace]
    exact before.isCurrent_start_self t
  obtain ⟨hbetween, -, hprevious⟩ := lastDiff_eq_between {} {} [] ∅ moves t
  exact ⟨hdiff, hbetween, hrunning, hcurrent, hprevious r hrunning rfl hcurrent⟩

end Race

end AssetDecl
