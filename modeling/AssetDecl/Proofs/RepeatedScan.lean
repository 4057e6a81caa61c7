import AssetDecl.Proofs.SoleOrigin

/-!
# Repeated scans

What a scan finds depends on the bindings through the needs that they meet (`Scan.run_congr`). In a
catalogue of one default type nothing else is left once a scan is completed, so that a catalogue
with any history then holds the same as a fresh one with the same keywords and folders that scans
once (`System.runScan_forgets`).
-/

namespace AssetDecl

/-! ## Findings and needs -/

section

variable {b b' : Bindings} (h : ∀ need, b.meet need = b'.meet need)

include h

theorem Findings.addBlock_congr : addBlock b = addBlock b' := by
  funext t f block
  unfold addBlock
  rw [Bindings.assign_eq, Bindings.assign_eq, h]

theorem Scan.step_congr (access : FileAccess) : Scan.step access b = Scan.step access b' := by
  funext s
  unfold step
  split
  · unfold Findings.addFile
    rw [Findings.addBlock_congr h]
  · rfl
  · rfl
  · rfl

theorem Scan.runUntil_congr (access : FileAccess) (stop : SourceFile → Bool) (s : Scan) :
    s.runUntil access b stop = s.runUntil access b' stop := by
  fun_induction runUntil access b stop s with
  | case1 s s' hstep _ hstop =>
    rw [step_congr h] at hstep
    rw [runUntil_of_running hstep, if_pos hstop]
  | case2 s s' hstep _ hstop ih =>
    rw [step_congr h] at hstep
    rw [runUntil_of_running hstep, if_neg hstop, ih]
  | case3 s f hstep =>
    rw [step_congr h] at hstep
    rw [runUntil_of_ended (by simp [hstep]), hstep]
  | case4 s hstep =>
    rw [step_congr h] at hstep
    rw [runUntil_of_ended (by simp [hstep]), hstep]

theorem Scan.run_congr (access : FileAccess) (s : Scan) : s.run access b = s.run access b' := by
  unfold run
  rw [runUntil_congr h]

theorem WaitingBlock.goesTo_congr : goesTo b = goesTo b' := by
  funext key p
  unfold goesTo
  rw [h]

end

/-! ## Scans on their own -/

namespace Catalogue

variable {cat cat' cat'' : Catalogue} {t : DeclType} {access : FileAccess} {f : Findings}

theorem SameButTickets.trans (h : cat.SameButTickets cat') (h' : cat'.SameButTickets cat'') :
    cat.SameButTickets cat'' := by
  obtain ⟨_, _, rfl⟩ := h
  obtain ⟨_, _, rfl⟩ := h'
  exact ⟨_, _, rfl⟩

theorem sameButTickets_report (cat : Catalogue) (w : Watcher) :
    cat.SameButTickets (cat.report w).2 := by
  unfold report
  split
  · exact .refl cat
  · rename_i t _
    show cat.SameButTickets ((cat.awaitType t).getD cat)
    cases hawait : cat.awaitType t with
    | none => exact .refl cat
    | some cat' => exact sameButTickets_awaitType hawait

theorem sameButTickets_reportAll (cat : Catalogue) (watchers : List Watcher) :
    cat.SameButTickets (cat.reportAll watchers).2 := by
  unfold reportAll
  refine List.foldlRecOn
    (motive := fun rc : List String × Catalogue => cat.SameButTickets rc.2) _ _ (.refl cat) ?_
  intro rc hrc w _
  exact hrc.trans (sameButTickets_report rc.2 w)

theorem sameButTickets_emit (cat : Catalogue) (changed : TypeSet) :
    cat.SameButTickets (cat.emit changed).2 := by
  unfold emit
  refine List.foldlRecOn
    (motive := fun rc : List String × Catalogue => cat.SameButTickets rc.2) _ _ (.refl cat) ?_
  intro rc hrc t _
  exact hrc.trans (sameButTickets_reportAll rc.2 _)

theorem isCurrent_launch (cat : Catalogue) (t : DeclType) :
    (cat.launch t).2.isCurrent (cat.launch t).1 = true := by
  unfold isCurrent launch
  dsimp only
  rw [Std.ExtTreeMap.getElem?_insert_self]
  exact beq_self_eq_true _

/-- A scan that is run in one go is completed; then callbacks run and its worker ends. -/
theorem sameButTickets_runScan {r : StartedScan} (hrun : r.scan.run access cat.bindings = some f) :
    (cat.completeScan r f).1.SameButTickets (cat.runScan access r).2 := by
  unfold runScan
  rw [hrun]
  exact (sameButTickets_emit _ _).trans ⟨_, _, rfl⟩

/-- A scan that is launched and completed on its own is installed. -/
theorem runScan_launch (hrun : (cat.launch t).1.scan.run access cat.bindings = some f) :
    ((cat.launch t).2.installScan t (cat.visitedOf t).files f).1.SameButTickets
      ((cat.launch t).2.runScan access (cat.launch t).1).2 := by
  have hcomplete : (cat.launch t).2.completeScan (cat.launch t).1 f =
      (cat.launch t).2.installScan t (cat.visitedOf t).files f := by
    unfold completeScan
    rw [if_pos (isCurrent_launch cat t)]
    rfl
  rw [← hcomplete]
  exact sameButTickets_runScan hrun

theorem Sole.launch (h : cat.Sole t) (t' : DeclType) : (cat.launch t').2.Sole t :=
  ⟨h.folders, h.store, h.waiting, h.visited⟩

theorem files_installScan (cat : Catalogue) (previous : FileSet) (f : Findings) (t' : DeclType) :
    ((cat.installScan t previous f).1.visitedOf t').files =
      if t = t' then f.files else (cat.visitedOf t').files := by
  rw [installScan_eq]
  show ((cat.withFound t previous f).visitedOf t').files = _
  rw [visitedOf_withFound]
  split <;> rfl

/-- What two catalogues show of their contents is the same: the sources of the declarations, the
waiting blocks and the visited files. -/
structure SameContents (cat cat' : Catalogue) : Prop where
  source : ∀ key, cat.store.source? key = cat'.store.source? key
  waiting : cat.waiting = cat'.waiting
  files : ∀ t, (cat.visitedOf t).files = (cat'.visitedOf t).files

section

variable (h : cat.Sole t) (h' : cat'.Sole t) (hs : cat.Sound) (hs' : cat'.Sound)
  (hkeeps : cat.bindings.AllKeepBlocks)
  (hkeywords : cat.bindings.byKeyword = cat'.bindings.byKeyword)

include h h' hs hs' hkeeps hkeywords

/-- Nothing is left of what the catalogues held before the same was found for both. -/
theorem Sole.installScan_congr (previous previous' : FileSet) (hf : f.Resolved cat.bindings) :
    (cat.installScan t previous f).1.SameContents (cat'.installScan t previous' f).1 := by
  have hmeet := hs.bindings.meet_eq hs'.bindings hkeywords
  have hcreated : ∀ p ∈ f.assigned, (cat.bindings.typeCreator? p.1).isSome := fun p =>
    hf.of_assigned
  have hcreated' : ∀ p ∈ f.assigned, (cat'.bindings.typeCreator? p.1).isSome := by
    intro p hp
    rw [hs'.bindings.isSome_typeCreator?_iff, ← hkeywords, ← hs.bindings.isSome_typeCreator?_iff]
    exact hcreated p hp
  have hgrows : cat'.bindings.Grows cat.bindings := by
    constructor
    · intro k c hk
      rw [hkeywords]
      exact hk
    · intro need t' hm
      rw [hmeet]
      exact hm
  refine ⟨?_, ?_, ?_⟩
  · intro key
    show (Aspect.source hkeeps).held? (cat.installScan t previous f).1.store key =
      (Aspect.source hkeeps).held? (cat'.installScan t previous' f).1.store key
    rw [h.held?_installScan hcreated hs _ (.refl _),
      h'.held?_installScan hcreated' hs' _ hgrows, WaitingBlock.goesTo_congr hmeet]
  · rw [h.waiting_installScan hcreated hs, h'.waiting_installScan hcreated' hs']
    simp only [hmeet]
  · intro t'
    rw [files_installScan, files_installScan]
    split
    · rfl
    · rename_i ht'
      rw [h.visited t' (Ne.symm ht'), h'.visited t' (Ne.symm ht')]

/-- Scans of the same folders on the same files leave the same. -/
theorem Sole.runScan_congr (hfolders : cat.folders = cat'.folders)
    (hlimits : cat.limits = cat'.limits)
    (hcompletes : ((cat.launch t).1.scan.run access cat.bindings).isSome) :
    ((cat.launch t).2.runScan access (cat.launch t).1).2.SameContents
      ((cat'.launch t).2.runScan access (cat'.launch t).1).2 := by
  obtain ⟨f, hf⟩ := Option.isSome_iff_exists.mp hcompletes
  have hscan : (cat'.launch t).1.scan = (cat.launch t).1.scan := by
    unfold Catalogue.launch
    dsimp only
    rw [hfolders, hlimits]
  have hf' : (cat'.launch t).1.scan.run access cat'.bindings = some f := by
    rw [hscan, ← Scan.run_congr (hs.bindings.meet_eq hs'.bindings hkeywords)]
    exact hf
  have hsorted : f.SortedBy cat.bindings t := Scan.sortedBy_run .nothing hf
  obtain ⟨_, _, hafter⟩ := runScan_launch hf
  obtain ⟨_, _, hafter'⟩ := runScan_launch hf'
  have hsame := (h.launch t).installScan_congr (h'.launch t) ⟨hs.bindings, hs.store⟩
    ⟨hs'.bindings, hs'.store⟩ hkeeps hkeywords (cat.visitedOf t).files (cat'.visitedOf t).files
    (hsorted.resolved hs.bindings)
  rw [hafter, hafter']
  exact ⟨hsame.source, hsame.waiting, hsame.files⟩

end

theorem length_rescan (cat : Catalogue) :
    cat.rescan.1.length = cat.defaultTypes.length := by
  have hrun : ∀ (types : List DeclType) (started : List StartedScan) (cat' : Catalogue),
      (types.foldl (fun sc t => (sc.1 ++ [(sc.2.launch t).1], (sc.2.launch t).2))
        (started, cat')).1.length = started.length + types.length := by
    intro types
    induction types with
    | nil => exact fun _ _ => rfl
    | cons t types ih =>
      intro started cat'
      rw [List.foldl_cons, ih, List.length_append, List.length_singleton, List.length_cons,
        Nat.add_assoc, Nat.add_comm 1]
  exact (hrun cat.defaultTypes [] cat).trans (Nat.zero_add _)

/-- Where all folders have one type, a rescan launches one scan. -/
theorem rescan_eq (htypes : cat.defaultTypes = [t]) :
    cat.rescan = ([(cat.launch t).1], (cat.launch t).2) := by
  unfold Catalogue.rescan
  rw [htypes]
  rfl

end Catalogue

/-! ## Systems -/

namespace System

variable {s : System} {t : DeclType} {e : Event} {r : StartedScan}

/-- The event scans all folders of this type, after it may have added one. -/
def Event.Scans (t : DeclType) : Event → Prop
  | .addFolder t' _ _ => t' = t
  | .rescan => True
  | _ => False

theorem Event.Scans.keepsTo (he : e.Scans t) : e.KeepsTo t := by
  cases e <;> first | exact he | trivial

/-- The event binds a keyword, or tries the waiting blocks again. -/
def Event.Registers : Event → Prop
  | .bind _ _ => True
  | .retry => True
  | _ => False

theorem Event.Registers.keepsTo (he : e.Registers) (t : DeclType) : e.KeepsTo t := by
  cases e <;> first | exact he | trivial

theorem Event.Registers.unchanged (he : e.Registers) (s : System) :
    (s.perform e).catalogue.folders = s.catalogue.folders ∧
      (s.perform e).catalogue.limits = s.catalogue.limits ∧ (s.perform e).scans = s.scans := by
  cases e with
  | bind keyword c =>
    show (s.bind keyword c).catalogue.folders = _ ∧ (s.bind keyword c).catalogue.limits = _ ∧
      (s.bind keyword c).scans = _
    unfold System.bind
    split <;> exact ⟨rfl, rfl, rfl⟩
  | retry =>
    show s.retry.catalogue.folders = _ ∧ s.retry.catalogue.limits = _ ∧ s.retry.scans = _
    rw [System.retry_eq]
    split <;> exact ⟨rfl, rfl, rfl⟩
  | _ => exact absurd he id

/-- The scan is launched on a catalogue that holds the same. -/
theorem Sole.launch_of_scans (h : s.Sole t) (hs : s.Sound) (he : e.Scans t)
    (hr : (s.perform e).scans = s.scans ++ [r]) :
    ∃ cat : Catalogue, cat.Sole t ∧ cat.Sound ∧ cat.launch t = (r, (s.perform e).catalogue) := by
  cases e with
  | addFolder t' folder extension =>
    obtain rfl : t' = t := he
    obtain rfl := List.singleton_inj.mp (List.append_cancel_left hr)
    refine ⟨{ s.catalogue with folders := (s.catalogue.addFolder t' folder extension).2.folders },
      ⟨(h.catalogue.addFolder folder extension).folders, h.catalogue.store, h.catalogue.waiting,
        h.catalogue.visited⟩, ⟨hs.catalogue.bindings, hs.catalogue.store⟩, rfl⟩
  | rescan =>
    have hstarted : s.catalogue.rescan.1 = [r] := List.append_cancel_left hr
    have hlength := s.catalogue.length_rescan
    rw [hstarted, List.length_singleton, eq_comm, List.length_eq_one_iff] at hlength
    obtain ⟨t', htypes⟩ := hlength
    obtain rfl : t' = t := h.catalogue.eq_of_mem_defaultTypes (by rw [htypes]; simp)
    refine ⟨s.catalogue, h.catalogue, hs.catalogue, ?_⟩
    show s.catalogue.launch t' = (r, s.catalogue.rescan.2)
    rw [Catalogue.rescan_eq htypes] at hstarted ⊢
    rw [← List.singleton_inj.mp hstarted]
  | _ => exact absurd he id

theorem scans_rescan (htypes : s.catalogue.defaultTypes = [t]) :
    (s.perform .rescan).scans = s.scans ++ [(s.catalogue.launch t).1] := by
  show s.scans ++ s.catalogue.rescan.1 = _
  rw [Catalogue.rescan_eq htypes]

/-- What a fresh system comes to by registrations. -/
theorem start_of_registers (limits : ScanLimits) (folders : List DeclFolder) {setup : List Event}
    (hfolders : ∀ folder ∈ folders, folder.defaultType = t)
    (hsetup : ∀ e ∈ setup, e.Registers) :
    let fresh := setup.foldl perform { catalogue := { limits, folders } }
    fresh.Sole t ∧ fresh.Sound ∧ fresh.catalogue.folders = folders ∧
      fresh.catalogue.limits = limits ∧ fresh.scans = [] := by
  refine List.foldlRecOn (motive := fun s : System => s.Sole t ∧ s.Sound ∧
    s.catalogue.folders = folders ∧ s.catalogue.limits = limits ∧ s.scans = []) setup perform ?_ ?_
  · refine ⟨⟨⟨hfolders, Store.ofOrigin_empty t, ?_, ?_⟩, ?_⟩, ?_, rfl, rfl, rfl⟩
    · exact fun p hp => absurd hp List.not_mem_nil
    · exact (sole_start limits t).catalogue.visited
    · exact fun r hr => absurd hr List.not_mem_nil
    · exact ⟨⟨Bindings.consistent_empty, Store.sound_empty⟩,
        fun _ _ hp => absurd hp List.not_mem_nil⟩
  · rintro s ⟨hsole, hsound, hfolders, hlimits, hscans⟩ e he
    obtain ⟨hfolders', hlimits', hscans'⟩ := (hsetup e he).unchanged s
    exact ⟨hsole.perform ((hsetup e he).keepsTo t), hsound.perform e, hfolders'.trans hfolders,
      hlimits'.trans hlimits, hscans'.trans hscans⟩

/-- The scan that an event starts is completed on its own. Whatever had happened before, the
declarations then have the sources, the same blocks wait and the same files have been visited as in
a fresh catalogue with the same limits, keywords and folders that scans the files once. -/
theorem runScan_forgets {limits : ScanLimits} {history setup : List Event} {access : FileAccess}
    {before s fresh : System}
    (hbefore : before = history.foldl perform { catalogue := { limits } })
    (hhistory : ∀ e ∈ history, e.KeepsTo t)
    (hs : s = before.perform e) (he : e.Scans t) (hstarts : s.scans = before.scans ++ [r])
    (hcompletes : (r.scan.run access s.catalogue.bindings).isSome)
    (hkeeps : s.catalogue.bindings.AllKeepBlocks)
    (hfresh : fresh = setup.foldl perform
      { catalogue := { limits := s.catalogue.limits, folders := s.catalogue.folders } })
    (hsetup : ∀ e ∈ setup, e.Registers)
    (hkeywords : fresh.catalogue.bindings.byKeyword = s.catalogue.bindings.byKeyword) :
    let started := fresh.catalogue.launch t
    let after := (s.catalogue.runScan access r).2
    let again := (started.2.runScan access started.1).2
    (∀ key, after.store.source? key = again.store.source? key) ∧
      after.waiting = again.waiting ∧
      ∀ t', (after.visitedOf t').files = (again.visitedOf t').files := by
  have hsole : before.Sole t := hbefore ▸ (sole_start limits t).run hhistory
  have hsound : before.Sound := hbefore ▸ ((Reachable.start limits).run history).sound
  rw [hs] at hstarts
  obtain ⟨cat, hcat, hcatSound, hlaunch⟩ := hsole.launch_of_scans hsound he hstarts
  rw [← hs] at hlaunch
  obtain rfl : r = (cat.launch t).1 := (congrArg Prod.fst hlaunch).symm
  have hcatalogue : s.catalogue = (cat.launch t).2 := (congrArg Prod.snd hlaunch).symm
  rw [hcatalogue] at hfresh hcompletes hkeeps hkeywords
  obtain ⟨hfreshSole, hfreshSound, hfolders, hlimits, -⟩ :=
    start_of_registers (cat.launch t).2.limits _ (hcat.launch t).folders hsetup
  rw [← hfresh] at hfreshSole hfreshSound hfolders hlimits
  obtain ⟨hsource, hwaiting, hfiles⟩ := hcat.runScan_congr hfreshSole.catalogue hcatSound
    hfreshSound.catalogue hkeeps hkeywords.symm hfolders.symm hlimits.symm hcompletes
  rw [hcatalogue]
  exact ⟨hsource, hwaiting, hfiles⟩

/-- A file has been renamed and its blocks have changed, a declaration has been removed and a
keyword is not bound any more: a rescan forgets all that. -/
theorem runScan_forgets_renamed :
    let t : DeclType := ⟨"material"⟩
    let old := FileAccess.ofTexts [("m/a.mtr", "stone { old } Sound noise {} gone {}")]
    let new := FileAccess.ofTexts [("m/b.mtr", "material gravel {} Stone { new } Sound noise {}")]
    let history : List Event :=
      [.bind "sound" (.plain ⟨"sound"⟩), .retry, .bind "material" (.plain t), .retry,
        .addFolder t "m" "mtr"] ++ List.replicate 4 (.advance 0 old) ++
      [.remove t "gone", .unbind "Sound" .listed]
    let setup : List Event := [.bind "Material" (.plain t), .retry]
    let before := history.foldl perform {}
    let s := before.perform .rescan
    let r := (before.catalogue.launch t).1
    let fresh := setup.foldl perform
      { catalogue := { limits := s.catalogue.limits, folders := s.catalogue.folders } }
    let started := fresh.catalogue.launch t
    let after := (s.catalogue.runScan new r).2
    let again := (started.2.runScan new started.1).2
    (before.catalogue.store.source? (.of ⟨"sound"⟩ "noise")).isSome ∧
      s.scans = before.scans ++ [r] ∧ (r.scan.run new s.catalogue.bindings).isSome ∧
      s.catalogue.bindings.AllKeepBlocks ∧
      fresh.catalogue.bindings.byKeyword = s.catalogue.bindings.byKeyword ∧
      (∀ key, after.store.source? key = again.store.source? key) ∧
      after.waiting = again.waiting ∧
      ∀ t', (after.visitedOf t').files = (again.visitedOf t').files := by
  intro t old new history setup before s r fresh started after again
  have hstored : (before.catalogue.store.source? (.of ⟨"sound"⟩ "noise")).isSome := by
    decide +kernel
  have htypes : before.catalogue.defaultTypes = [t] := by decide +kernel
  have hstarts : s.scans = before.scans ++ [r] := scans_rescan (s := before) htypes
  have hcompletes : (r.scan.run new s.catalogue.bindings).isSome := by
    have hsteps : (r.scan.steps new s.catalogue.bindings 4).found?.isSome := by decide +kernel
    obtain ⟨f, hf⟩ := Option.isSome_iff_exists.mp hsteps
    rw [Scan.run_of_steps hf]
    rfl
  have hbound : s.catalogue.bindings.byKeyword =
      Std.ExtTreeMap.insert ∅ "material" (.plain t) := by
    unfold s before
    rw [bindings_perform, bindings_run]
    rfl
  have hkeeps : s.catalogue.bindings.AllKeepBlocks := by
    intro k c hk name block
    rw [hbound, Std.ExtTreeMap.getElem?_insert] at hk
    split at hk
    · obtain rfl := Option.some.inj hk
      rfl
    · simp at hk
  have hkeywords : fresh.catalogue.bindings.byKeyword = s.catalogue.bindings.byKeyword := by
    rw [hbound]
    rfl
  have hhistory : ∀ e ∈ history, Event.KeepsTo t e := by
    simp [history, Event.KeepsTo]
  have hsetup : ∀ e ∈ setup, e.Registers := by
    simp [setup, Event.Registers]
  have hscans : Event.Scans t .rescan := trivial
  exact ⟨hstored, hstarts, hcompletes, hkeeps, hkeywords,
    runScan_forgets rfl hhistory rfl hscans hstarts hcompletes hkeeps rfl hsetup hkeywords⟩

end System

end AssetDecl
