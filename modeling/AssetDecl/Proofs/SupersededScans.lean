import AssetDecl.Proofs.IndependentScans
import AssetDecl.Proofs.RacingScans

/-!
# Superseded scans

Where all scans of a race are of one type and the bindings stay as they are, the contents of the
catalogue are made by the newest scan alone, as soon as it is completed: whatever older scans have
installed before is overwritten, and whatever they find afterwards is dropped unheard
(`Race.superseded_unseen`).
-/

namespace AssetDecl

namespace Catalogue

variable {cat cat' : Catalogue} {t : DeclType} {f : Findings}

/-- The catalogue holds these findings and nothing else: under every key the last block that they
have of it. -/
structure Holds (t : DeclType) (f : Findings) (cat : Catalogue) : Prop where
  source : ∀ key, cat.store.source? key = f.lastBlock? key
  waiting : cat.waiting = f.waiting
  files : (cat.visitedOf t).files = f.files

theorem SameButTickets.holds (hsame : cat.SameButTickets cat') (h : cat.Holds t f) :
    cat'.Holds t f := by
  obtain ⟨_, _, rfl⟩ := hsame
  exact ⟨h.source, h.waiting, h.files⟩

theorem Holds.sameContents (h : cat.Holds t f) (h' : cat'.Holds t f) (hsole : cat.Sole t)
    (hsole' : cat'.Sole t) : cat.SameContents cat' := by
  refine ⟨fun key => (h.source key).trans (h'.source key).symm, h.waiting.trans h'.waiting.symm, ?_⟩
  intro t'
  by_cases ht : t' = t
  · rw [ht, h.files, h'.files]
  · rw [hsole.visited t' ht, hsole'.visited t' ht]

/-- In a catalogue of one type, an installed scan overwrites whatever there was. -/
theorem Sole.holds_installScan (h : cat.Sole t) (hs : cat.Sound)
    (hkeeps : cat.bindings.AllKeepBlocks) (hf : f.Resolved cat.bindings) (previous : FileSet) :
    (cat.installScan t previous f).1.Holds t f := by
  have hcreated : ∀ p ∈ f.assigned, (cat.bindings.typeCreator? p.1).isSome := fun p =>
    hf.of_assigned
  refine ⟨?_, ?_, ?_⟩
  · intro key
    have hunmet : f.waiting.filter (WaitingBlock.goesTo cat.bindings key) = [] := by
      rw [List.filter_eq_nil_iff]
      intro p hp
      rw [WaitingBlock.goesTo_iff, hf.unmet p hp]
      simp
    have hsource : (cat.installScan t previous f).1.store.source? key = _ :=
      h.held?_installScan hcreated hs (Aspect.source hkeeps) (.refl _) key
    rw [hsource, hunmet]
    cases f.lastBlock? key <;> rfl
  · rw [h.waiting_installScan hcreated hs, List.filter_eq_self]
    exact fun p hp => decide_eq_true (hf.unmet p hp)
  · rw [files_installScan, if_pos rfl]

end Catalogue

namespace Race

/-- All scans are of this type, and what they find is sorted by these bindings. -/
def Move.KeepsTo (t : DeclType) (b : Bindings) : Move → Prop
  | .start t' => t' = t
  | .finish _ (some f) => f.SortedBy b t
  | .finish _ none => True

/-- A scan that is started and completed, and no other. -/
def alone (cat : Catalogue) (t : DeclType) (f : Findings) : Race :=
  [Move.start t, .finish 0 (some f)].foldl perform { catalogue := cat }

variable {fresh : Catalogue} {t : DeclType} {race : Race} {r : StartedScan} {index : Nat}
  {found : Option Findings}

/-- Everything is of one type, the newest scan is current, and once it is completed the catalogue
holds what it has found. -/
structure Sole (fresh : Catalogue) (t : DeclType) (race : Race) : Prop where
  ordered : race.Ordered
  catalogue : race.catalogue.Sole t
  sound : race.catalogue.Sound
  bindings : race.catalogue.bindings = fresh.bindings
  types : ∀ r ∈ race.started, r.scan.defaultType = t
  newest : ∀ r, race.started[0]? = some r → race.catalogue.isCurrent r = true
  contents : ∀ r f, race.scans[0]? = some (r, .completed f) →
    f.SortedBy fresh.bindings t ∧ race.catalogue.Holds t f

theorem sole_of_no_scans (h : fresh.Sole t) (hs : fresh.Sound) :
    ({ catalogue := fresh } : Race).Sole fresh t where
  ordered := ordered_of_no_scans fresh
  catalogue := h
  sound := hs
  bindings := rfl
  types := fun _ hr => absurd hr List.not_mem_nil
  newest := by simp [started]
  contents := by simp

theorem started_of_scans {fate : Fate} (h : race.scans[index]? = some (r, fate)) :
    race.started[index]? = some r := by
  rw [started, List.getElem?_map, h]
  rfl

/-- A scan that is not the newest one has been superseded. -/
theorem Sole.superseded (h : race.Sole fresh t) (hr : race.started[index + 1]? = some r) :
    race.catalogue.isCurrent r = false := by
  rw [← Bool.not_eq_true]
  intro hcurrent
  obtain ⟨hlt, -⟩ := List.getElem?_eq_some_iff.mp hr
  have hnewest : race.started[0]? = some race.started[0] := List.getElem?_eq_getElem (by omega)
  have htype := h.types _ (List.mem_of_getElem? hnewest)
  have htype' := h.types r (List.mem_of_getElem? hr)
  have hindex := h.ordered.index_eq hnewest hr (h.newest _ hnewest) hcurrent
    (htype.trans htype'.symm)
  omega

theorem Sole.start (h : race.Sole fresh t) : (race.start t).Sole fresh t where
  ordered := h.ordered.start t
  catalogue := h.catalogue.launch t
  sound := ⟨h.sound.bindings, h.sound.store⟩
  bindings := h.bindings
  types := by
    intro r hr
    rw [started_start] at hr
    rcases List.mem_cons.mp hr with rfl | hr
    · rfl
    · exact h.types r hr
  newest := by
    intro r hr
    rw [started_start] at hr
    obtain rfl := Option.some.inj hr
    exact race.isCurrent_start_self t
  contents := by
    intro r f hr
    have hfate : Fate.running = .completed f := congrArg Prod.snd (Option.some.inj hr)
    simp at hfate

/-- Whatever the end of a scan does, the same scans have been started and are current. -/
theorem Sole.of_finish (h : race.Sole fresh t)
    (hcatalogue : (race.finish index found).catalogue.Sole t)
    (hsound : (race.finish index found).catalogue.Sound)
    (hbindings : (race.finish index found).catalogue.bindings = race.catalogue.bindings)
    (hcontents : ∀ r f, (race.finish index found).scans[0]? = some (r, .completed f) →
      f.SortedBy fresh.bindings t ∧ (race.finish index found).catalogue.Holds t f) :
    (race.finish index found).Sole fresh t where
  ordered := h.ordered.finish index found
  catalogue := hcatalogue
  sound := hsound
  bindings := hbindings.trans h.bindings
  types := by
    rw [started_finish]
    exact h.types
  newest := by
    intro r hr
    rw [started_finish] at hr
    rw [isCurrent_finish, h.newest r hr]
  contents := hcontents

/-- A scan ends that installs nothing, and is not the newest one or dies. -/
theorem Sole.finish_of_nothing (h : race.Sole fresh t)
    (hr : race.scans[index]? = some (r, .running))
    (hsame : race.catalogue.SameButTickets (race.catalogue.endScan r found).2)
    (hnewest : index = 0 → found = none) : (race.finish index found).Sole fresh t := by
  have hscans : ∀ r' f, (race.finish index found).scans[0]? = some (r', .completed f) →
      race.scans[0]? = some (r', .completed f) := by
    intro r' f hr'
    rw [finish_eq hr] at hr'
    dsimp only at hr'
    rw [List.getElem?_set] at hr'
    split at hr'
    · rename_i hindex
      rw [hnewest hindex] at hr'
      split at hr'
      · have hfate : Fate.died = .completed f := congrArg Prod.snd (Option.some.inj hr')
        simp at hfate
      · simp at hr'
    · exact hr'
  have hcatalogue : (race.finish index found).catalogue = (race.catalogue.endScan r found).2 := by
    rw [finish_eq hr]
  rw [← hcatalogue] at hsame
  refine h.of_finish (hsame.sole h.catalogue) (hsame.agrees.sound h.sound) hsame.agrees.bindings ?_
  intro r' f hr'
  obtain ⟨hsorted, hholds⟩ := h.contents r' f (hscans r' f hr')
  exact ⟨hsorted, hsame.holds hholds⟩

/-- The newest scan is completed, and overwrites what older ones have installed. -/
theorem Sole.finish_newest (h : race.Sole fresh t) (hkeeps : fresh.bindings.AllKeepBlocks)
    {f : Findings} (hf : f.SortedBy fresh.bindings t) (hr : race.scans[0]? = some (r, .running)) :
    (race.finish 0 (some f)).Sole fresh t := by
  have hcurrent := h.newest r (started_of_scans hr)
  have htype := h.types r (List.mem_of_getElem? (started_of_scans hr))
  have hend := Catalogue.sameButTickets_endScan hcurrent f
  have hcatalogue : (race.finish 0 (some f)).catalogue = (race.catalogue.endScan r (some f)).2 := by
    rw [finish_eq hr]
  rw [← hcatalogue, htype] at hend
  have hsole : (race.catalogue.installScan t r.previous f).1.Sole t :=
    h.catalogue.installScan hf.origin_eq
  refine h.of_finish (hend.sole hsole) (hend.agrees.sound (h.sound.installScan t r.previous f))
    hend.agrees.bindings ?_
  intro r' f' hr'
  have hfate : race.scans.set 0 (r, .completed f) = (race.finish 0 (some f)).scans := by
    rw [finish_eq hr]
    rfl
  rw [← hfate, List.getElem?_set_self (List.getElem?_eq_some_iff.mp hr).1] at hr'
  obtain rfl : f = f' := Fate.completed.inj (congrArg Prod.snd (Option.some.inj hr'))
  refine ⟨hf, hend.holds ?_⟩
  rw [← h.bindings] at hkeeps hf
  exact h.catalogue.holds_installScan h.sound hkeeps (hf.resolved h.sound.bindings) r.previous

theorem Sole.perform (h : race.Sole fresh t) (hkeeps : fresh.bindings.AllKeepBlocks) {move : Move}
    (hmove : move.KeepsTo t fresh.bindings) : (race.perform move).Sole fresh t := by
  cases move with
  | start t' =>
    obtain rfl : t' = t := hmove
    exact h.start
  | finish index found =>
    show (race.finish index found).Sole fresh t
    rcases race.finish_cases index found with hsame | ⟨r, hr⟩
    · rw [hsame]
      exact h
    · cases index with
      | succ index =>
        have hsuperseded := h.superseded (started_of_scans hr)
        exact h.finish_of_nothing hr
          (Catalogue.sameButTickets_endScan_of_superseded hsuperseded found) (by simp)
      | zero =>
        cases found with
        | none =>
          exact h.finish_of_nothing hr (Catalogue.sameButTickets_workerExited _ r true)
            fun _ => rfl
        | some f => exact h.finish_newest hkeeps hmove hr

theorem Sole.run (hfresh : fresh.Sole t) (hs : fresh.Sound)
    (hkeeps : fresh.bindings.AllKeepBlocks) {moves : List Move}
    (hmoves : ∀ move ∈ moves, move.KeepsTo t fresh.bindings) :
    (moves.foldl Race.perform { catalogue := fresh }).Sole fresh t :=
  List.foldlRecOn (motive := fun race : Race => race.Sole fresh t) moves Race.perform
    (sole_of_no_scans hfresh hs) fun _ h move hmove =>
      h.perform hkeeps (hmoves move hmove)

theorem alone_holds (hfresh : fresh.Sole t) (hs : fresh.Sound)
    (hkeeps : fresh.bindings.AllKeepBlocks) {f : Findings} (hf : f.SortedBy fresh.bindings t) :
    (alone fresh t f).catalogue.Sole t ∧ (alone fresh t f).catalogue.Holds t f := by
  have hmoves : ∀ move ∈ [Move.start t, .finish 0 (some f)], move.KeepsTo t fresh.bindings := by
    simp [Move.KeepsTo, hf]
  have hsole := Sole.run hfresh hs hkeeps hmoves
  exact ⟨hsole.catalogue, (hsole.contents (fresh.launch t).1 f rfl).2⟩

theorem sole_fresh {b : Bindings} {folders : List DeclFolder} (limits : ScanLimits)
    (watchers : Std.ExtTreeMap DeclType (Signal Watcher)) (hb : b.Consistent)
    (hfolders : ∀ folder ∈ folders, folder.defaultType = t) :
    let fresh : Catalogue := { limits, bindings := b, folders, watchers }
    fresh.Sole t ∧ fresh.Sound := by
  intro fresh
  refine ⟨⟨hfolders, Store.ofOrigin_empty t, ?_, ?_⟩, hb, Store.sound_empty⟩
  · exact fun p hp => absurd hp List.not_mem_nil
  · intro t' _
    simp [fresh, Catalogue.visitedOf]

/-- Scans of one type have been started and have ended in any order. Once the newest one is
completed, the sources of the declarations, the waiting blocks and the visited files are those that
it has found, as if it had been the only one. All older scans are superseded, and a superseded scan
neither changes anything when it is completed nor runs a callback. -/
theorem superseded_unseen {s : System} {folders : List DeclFolder} {moves : List Move}
    (hs : s.Reachable) (hkeeps : s.catalogue.bindings.AllKeepBlocks)
    (hfolders : ∀ folder ∈ folders, folder.defaultType = t)
    (hmoves : ∀ move ∈ moves, move.KeepsTo t s.catalogue.bindings)
    (limits : ScanLimits) (watchers : Std.ExtTreeMap DeclType (Signal Watcher)) :
    let fresh : Catalogue := { limits, bindings := s.catalogue.bindings, folders, watchers }
    let race := moves.foldl perform { catalogue := fresh }
    (∀ r f, race.scans.head? = some (r, .completed f) →
      race.catalogue.Holds t f ∧ race.catalogue.SameContents (alone fresh t f).catalogue) ∧
    (∀ r ∈ race.started.tail, race.catalogue.isCurrent r = false) ∧
    ∀ r, race.catalogue.isCurrent r = false → ∀ f,
      race.catalogue.completeScan r f = (race.catalogue, ∅) ∧
      race.catalogue.endScan r (some f) = ([], race.catalogue.workerExited r false) := by
  intro fresh race
  obtain ⟨hfresh, hfreshSound⟩ := sole_fresh limits watchers hs.sound.catalogue.bindings hfolders
  have hrace : race.Sole fresh t := Sole.run hfresh hfreshSound hkeeps hmoves
  refine ⟨?_, ?_, ?_⟩
  · intro r f hnewest
    rw [List.head?_eq_getElem?] at hnewest
    obtain ⟨hsorted, hholds⟩ := hrace.contents r f hnewest
    obtain ⟨halone, hholds'⟩ := alone_holds hfresh hfreshSound hkeeps hsorted
    exact ⟨hholds, hholds.sameContents hholds' hrace.catalogue halone⟩
  · intro r hr
    obtain ⟨index, hindex⟩ := List.mem_iff_getElem?.mp hr
    rw [List.getElem?_tail] at hindex
    exact hrace.superseded hindex
  · intro r hcurrent f
    exact ⟨Catalogue.completeScan_of_superseded hcurrent f,
      Catalogue.endScan_of_superseded hcurrent f⟩

/-- The first scan is installed before it is superseded, the second one ends after the third. Of
both nothing is left. -/
theorem superseded_unseen_stone :
    let t : DeclType := ⟨"material"⟩
    let s : System := [System.Event.bind "material" (.plain t), .retry].foldl System.perform {}
    let folders : List DeclFolder := [⟨"m/", ".mtr", t⟩]
    let watchers : Std.ExtTreeMap DeclType (Signal Watcher) :=
      Std.ExtTreeMap.insert ∅ t (({} : Signal Watcher).connect { label := "seen" }).2
    let file : SourceFile := ⟨"m/a.mtr", ⟨"/"⟩, "base", ⟨9, 0⟩⟩
    let stone : BlockSource := { keyword := "Material", name := "Stone", contents := " new " }
    let f₁ := Findings.addFile s.catalogue.bindings t {} file
      [{ name := "stone" }, { name := "gravel" }, { keyword := "sound", name := "noise" }]
    let f₂ := Findings.addFile s.catalogue.bindings t {} file [{ name := "moss" }]
    let f₃ := Findings.addFile s.catalogue.bindings t {} file [stone]
    let history : List Move :=
      [.start t, .finish 0 (some f₁), .start t, .start t, .finish 0 (some f₃)]
    let moves := history ++ [.finish 1 (some f₂)]
    let fresh : Catalogue := { bindings := s.catalogue.bindings, folders, watchers }
    let race := moves.foldl perform { catalogue := fresh }
    s.Reachable ∧ s.catalogue.bindings.AllKeepBlocks ∧
      (∀ folder ∈ folders, folder.defaultType = t) ∧
      (∀ move ∈ moves, move.KeepsTo t s.catalogue.bindings) ∧
      (∃ r, race.scans.head? = some (r, .completed f₃)) ∧
      race.catalogue.store.source? (.of t "gravel") = none ∧
      race.catalogue.store.source? (.of t "moss") = none ∧
      race.catalogue.Holds t f₃ ∧ race.catalogue.SameContents (alone fresh t f₃).catalogue ∧
      (∃ r ∈ race.started, race.catalogue.isCurrent r = false ∧
        race.catalogue.endScan r (some f₂) = ([], race.catalogue.workerExited r false)) := by
  intro t s folders watchers file stone f₁ f₂ f₃ history moves fresh race
  have hs : s.Reachable := (System.Reachable.start {}).run _
  have hbound : s.catalogue.bindings.byKeyword =
      Std.ExtTreeMap.insert ∅ "material" (.plain t) := by
    unfold s
    rw [System.bindings_run]
    rfl
  have hkeeps : s.catalogue.bindings.AllKeepBlocks := by
    intro k c hk name block
    rw [hbound, Std.ExtTreeMap.getElem?_insert] at hk
    split at hk
    · obtain rfl := Option.some.inj hk
      rfl
    · simp at hk
  have hfolders : ∀ folder ∈ folders, folder.defaultType = t := by
    intro folder hfolder
    rw [List.mem_singleton.mp hfolder]
  have hsorted : ∀ blocks, (Findings.addFile s.catalogue.bindings t {} file blocks).SortedBy
      s.catalogue.bindings t := fun blocks => .addFile .nothing file blocks
  have hmoves : ∀ move ∈ moves, move.KeepsTo t s.catalogue.bindings := by
    simp [moves, history, Move.KeepsTo, hsorted, f₁, f₂, f₃]
  obtain ⟨hcontents, hsuperseded, hunseen⟩ := superseded_unseen hs hkeeps hfolders hmoves {} watchers
  have hgravel : race.catalogue.store.source? (.of t "gravel") = none := by decide +kernel
  have hmoss : race.catalogue.store.source? (.of t "moss") = none := by decide +kernel
  have hnewest : ∃ r, race.scans.head? = some (r, .completed f₃) := ⟨_, rfl⟩
  have htail : ∃ r, r ∈ race.started.tail := ⟨_, List.mem_cons_self⟩
  obtain ⟨r, hr⟩ := hnewest
  obtain ⟨r', hr'⟩ := htail
  obtain ⟨hholds, hsame⟩ := hcontents r f₃ hr
  have hcurrent := hsuperseded r' hr'
  exact ⟨hs, hkeeps, hfolders, hmoves, ⟨r, hr⟩, hgravel, hmoss, hholds, hsame,
    ⟨r', List.mem_of_mem_tail hr', hcurrent, (hunseen r' hcurrent f₂).2⟩⟩

end Race

end AssetDecl
