import AssetDecl.Proofs.LosslessTree
import AssetDecl.Proofs.LossyDecoding
import AssetDecl.Proofs.LostDeclarations
import AssetDecl.Proofs.OpenedProjects

/-!
# Checked projects

A check decodes, parses and renders every visited file again. Since every text is rendered as it was
read, a file comes out as it was exactly if it holds a text (`Cli.FileCheck.faithful_ofBytes`). The
visited files are those of the last installed scan of each type (`System.files_run`), and while the
files stay as they are they can be read again (`System.FindsReadable.perform`). So a check passes
exactly if all of them hold texts and no block waits (`Cli.check_passes_iff`).
-/

namespace AssetDecl

/-! ## Files of a tree -/

namespace FileTree

variable {tree : FileTree} {file : SourceFile}

def Readable (tree : FileTree) (file : SourceFile) : Prop :=
  ∃ data, SearchPath.read tree file = .ok data

/-- The file can be read, and its bytes are the encoding of a text. -/
def HoldsText (tree : FileTree) (file : SourceFile) : Prop :=
  ∃ text modified, SearchPath.read tree file = .ok ⟨Utf8.encode text, modified⟩

theorem holdsText_iff {data : FileData} (h : SearchPath.read tree file = .ok data) :
    tree.HoldsText file ↔ ∃ text, Utf8.encode text = data.bytes := by
  unfold HoldsText
  rw [h]
  constructor
  · rintro ⟨text, modified, hdata⟩
    exact ⟨text, (congrArg FileData.bytes (Except.ok.inj hdata)).symm⟩
  · rintro ⟨text, hbytes⟩
    exact ⟨text, data.modified, by rw [hbytes]⟩

instance (tree : FileTree) (file : SourceFile) : Decidable (tree.HoldsText file) :=
  match h : SearchPath.read tree file with
  | .ok data =>
    decidable_of_iff (Utf8.encode (Utf8.decodeLossy data.bytes) = data.bytes)
      (Utf8.encode_decodeLossy_iff.trans (holdsText_iff h).symm)
  | .error _ => .isFalse fun ⟨_, _, htext⟩ => by simp [h] at htext

end FileTree

/-- What a scan reads can be read in the tree. -/
theorem FileAccess.readable_of_read {access : FileAccess} {tree : FileTree} {file : SourceFile}
    {blocks : List BlockSource} (hopen : access.openFile file = SearchPath.openIn tree file)
    (h : access.read file = .blocks blocks) : tree.Readable file := by
  unfold FileAccess.read at h
  rw [hopen, SearchPath.openIn] at h
  unfold FileTree.Readable
  cases hread : SearchPath.read tree file with
  | ok data => exact ⟨data, rfl⟩
  | error e => simp [hread] at h

/-! ## Readable files -/

/-- All of the files can be read in the tree. -/
def FileTree.AllReadable (tree : FileTree) (files : FileSet) : Prop :=
  ∀ place file, files.get? place = some file → tree.Readable file

namespace FileTree.AllReadable

variable {tree : FileTree} {files : FileSet}

theorem empty (tree : FileTree) : tree.AllReadable ∅ := by
  intro place file h
  simp at h

theorem insert (h : tree.AllReadable files) {file : SourceFile} (hfile : tree.Readable file) :
    tree.AllReadable (files.insert file) := by
  intro place file' hfile'
  rw [Std.ExtTreeSet.get?_insert] at hfile'
  split at hfile'
  · exact Option.some.inj hfile' ▸ hfile
  · exact h place file' hfile'

theorem of_mem_toList (h : tree.AllReadable files) {file : SourceFile}
    (hmem : file ∈ files.toList) : tree.Readable file :=
  h file file (FileSet.mem_toList_iff.1 hmem)

end FileTree.AllReadable

/-- The file that has been read and those that are recorded can be read in the tree. -/
structure Scan.FindsReadable (tree : FileTree) (s : Scan) : Prop where
  current : ∀ file blocks, s.current = some (file, blocks) → tree.Readable file
  found : tree.AllReadable s.found.files

theorem Scan.FindsReadable.step {access : FileAccess} {tree : FileTree} {b : Bindings}
    {s s' : Scan} (hopen : ∀ file, access.openFile file = SearchPath.openIn tree file)
    (h : s.FindsReadable tree) (hstep : s.step access b = .running s') :
    s'.FindsReadable tree := by
  have hsteps := steps_step access b s
  rw [hstep] at hsteps
  cases hsteps with
  | @record file blocks hcurrent =>
    refine ⟨by simp, ?_⟩
    dsimp only
    rw [Findings.files_addFile]
    exact h.found.insert (h.current file blocks hcurrent)
  | skip _ _ _ => exact ⟨h.current, h.found⟩
  | read _ _ _ hread =>
    refine ⟨fun file' blocks' hcurrent' => ?_, h.found⟩
    obtain ⟨rfl, -⟩ := Prod.mk.inj (Option.some.inj hcurrent')
    exact FileAccess.readable_of_read (hopen _) hread
  | list _ _ _ => exact ⟨h.current, h.found⟩

namespace System

variable {tree : FileTree} {s : System} {e : Event} {t t' : DeclType} {f : Findings}

/-! ## Visited files -/

/-- The visited files are replaced by installing what a scan has found, and by nothing else. -/
theorem visited_perform_of_none (h : s.installs? e = none) :
    (s.perform e).catalogue.visited = s.catalogue.visited := by
  have hbecome : ∀ {cat? : Option Catalogue},
      (∀ cat, cat? = some cat → s.catalogue.SameButTickets cat) →
        (s.become cat?).catalogue.visited = s.catalogue.visited := by
    intro cat? hcat
    obtain ⟨_, _, hsame⟩ := sameButTickets_become hcat
    rw [hsame]
  cases e with
  | bind keyword c =>
    show (s.bind keyword c).catalogue.visited = _
    unfold System.bind
    split <;> rfl
  | retry =>
    show s.retry.catalogue.visited = _
    rw [System.retry_eq]
    split <;> rfl
  | unbind keyword order =>
    show (s.unbind keyword order).catalogue.visited = _
    unfold System.unbind Catalogue.unbindType
    cases s.catalogue.bindings.unbindKeyword keyword order <;> rfl
  | rescan =>
    show s.catalogue.rescan.2.visited = _
    unfold Catalogue.rescan
    refine List.foldlRecOn (motive := fun sc : List StartedScan × Catalogue =>
      sc.2.visited = s.catalogue.visited) _ _ rfl ?_
    exact fun _ hsc _ _ => hsc
  | findOrCreate t name =>
    show (s.findOrCreate t name).catalogue.visited = _
    unfold System.findOrCreate
    split
    · rfl
    · rename_i hf
      rcases Catalogue.findOrCreate_cases hf with rfl | ⟨c, -, rfl⟩ <;> rfl
  | advance index access =>
    show (s.advance index access).catalogue.visited = _
    unfold installs? at h
    rw [System.advance_eq]
    dsimp only at h
    cases hr : s.scans[index]? with
    | none => rfl
    | some r =>
      rw [hr, Option.bind_some] at h
      dsimp only
      cases hstep : r.scan.step access s.catalogue.bindings with
      | running scan => rfl
      | finished found =>
        rw [hstep] at h
        dsimp only at h
        split at h
        · simp at h
        · rename_i hcurrent
          dsimp only
          rw [Catalogue.completeScan_of_superseded (Bool.eq_false_iff.mpr hcurrent) found]
      | crashed => rfl
  | leave index =>
    show (s.leave index).catalogue.visited = _
    unfold System.leave
    split <;> rfl
  | await t => exact hbecome fun cat hcat => Catalogue.sameButTickets_awaitType hcat
  | awaitAll => exact hbecome fun cat hcat => Catalogue.sameButTickets_joinCurrent hcat
  | joinEvery => exact hbecome fun cat hcat => Catalogue.sameButTickets_joinEvery hcat
  | _ => rfl

theorem files_perform_of_some (h : s.installs? e = some (t, f)) (t' : DeclType) :
    ((s.perform e).catalogue.visitedOf t').files =
      if t = t' then f.files else (s.catalogue.visitedOf t').files := by
  obtain ⟨r, -, -, -, hcat⟩ := installs?_eq_some h
  rw [hcat, Catalogue.files_installScan]

/-- The visited files of a type are those of its scan that was installed last. -/
theorem files_run (s : System) (es : List Event) (t : DeclType) :
    ((es.foldl perform s).catalogue.visitedOf t).files =
      ((s.lastFound? es t).map Findings.files).getD (s.catalogue.visitedOf t).files := by
  induction es using List.reverseRecOn with
  | nil => rfl
  | append_singleton es e ih =>
    rw [List.foldl_append, List.foldl_cons, List.foldl_nil]
    cases hinstalls : (es.foldl perform s).installs? e with
    | none =>
      rw [lastFound?_concat_of_none hinstalls, ← ih]
      unfold Catalogue.visitedOf
      rw [visited_perform_of_none hinstalls]
    | some p =>
      obtain ⟨t', f⟩ := p
      rw [lastFound?_concat_of_some hinstalls, files_perform_of_some hinstalls, ih]
      split <;> rfl

/-- All files that have been visited, and all that scans have found, can be read in the tree. -/
structure FindsReadable (tree : FileTree) (s : System) : Prop where
  visited : ∀ t, tree.AllReadable (s.catalogue.visitedOf t).files
  scans : ∀ r ∈ s.scans, r.scan.FindsReadable tree

theorem FindsReadable.perform (h : s.FindsReadable tree) (he : e.ReadsFrom tree) :
    (s.perform e).FindsReadable tree := by
  constructor
  · intro t
    cases hinstalls : s.installs? e with
    | none =>
      unfold Catalogue.visitedOf
      rw [visited_perform_of_none hinstalls]
      exact h.visited t
    | some p =>
      obtain ⟨t', f⟩ := p
      obtain ⟨r, hr, -, rfl, -⟩ := installs?_eq_some hinstalls
      rw [files_perform_of_some hinstalls]
      split
      · exact (h.scans r hr).found
      · exact h.visited t
  · intro r' hr'
    rcases mem_scans_perform hr' with
      hr | ⟨cat, t, rfl⟩ | ⟨r, hr, index, access, scan, rfl, hstep, rfl⟩
    · exact h.scans r' hr
    · exact ⟨by simp [Catalogue.launch], .empty tree⟩
    · exact (h.scans r hr).step he hstep

theorem findsReadable_run (limits : ScanLimits) {es : List Event}
    (hes : ∀ e ∈ es, e.ReadsFrom tree) :
    (es.foldl perform { catalogue := { limits } }).FindsReadable tree := by
  refine List.foldlRecOn (motive := FindsReadable tree) es perform ?_ fun s h e he =>
    h.perform (hes e he)
  refine ⟨fun t => ?_, fun r hr => absurd hr List.not_mem_nil⟩
  have hnone : (({ limits } : Catalogue).visitedOf t).files = ∅ := by
    simp [Catalogue.visitedOf]
  rw [hnone]
  exact .empty tree

end System

/-! ## Checking -/

namespace Cli

/-- A file comes out of a check as it was exactly if its bytes are the encoding of a text. -/
theorem FileCheck.faithful_ofBytes (file : SourceFile) (bytes : List UInt8) :
    (ofBytes file bytes).faithful = true ↔ ∃ text, Utf8.encode text = bytes := by
  have hrendered : (SyntaxTree.read (Utf8.decodeLossy bytes)).1.render = Utf8.decodeLossy bytes :=
    SyntaxTree.render_parse _
  show (bytes == Utf8.encode (SyntaxTree.read (Utf8.decodeLossy bytes)).1.render) = true ↔ _
  rw [hrendered, beq_iff_eq, eq_comm, Utf8.encode_decodeLossy_iff]

theorem mapM_eq_ok {ε α β : Type} {f : α → Except ε β} {g : α → β} {as : List α}
    (h : ∀ a ∈ as, f a = .ok (g a)) : as.mapM f = .ok (as.map g) := by
  induction as with
  | nil => rfl
  | cons a as ih =>
    rw [List.mapM_cons, h a List.mem_cons_self, ih fun a' ha' => h a' (List.mem_cons_of_mem a ha')]
    rfl

/-- The bytes of a file in a tree, none when it cannot be read. -/
def bytesIn (tree : FileTree) (file : SourceFile) : List UInt8 :=
  ((SearchPath.read tree file).toOption.map FileData.bytes).getD []

/-- A check whose files can be read comes to an end, and holds against those that are no texts. -/
theorem ProjectCheck.exists_of_readable {tree : FileTree} {cat : Catalogue}
    {visited : List SourceFile} (hvisited : visited = cat.defaultTypes.flatMap cat.visitedFiles)
    (hread : ∀ file ∈ visited, tree.Readable file) :
    ∃ checked, ProjectCheck.run cat (fun file => (SearchPath.read tree file).map FileData.bytes) =
        .ok checked ∧
      checked.files.map FileCheck.file = visited ∧ checked.waiting = cat.waiting ∧
      checked.mismatches.map FileCheck.file = visited.filter (¬tree.HoldsText ·) := by
  have hbytes : ∀ file ∈ visited,
      (SearchPath.read tree file).map FileData.bytes = .ok (bytesIn tree file) ∧
        ((FileCheck.ofBytes file (bytesIn tree file)).faithful = true ↔ tree.HoldsText file) := by
    intro file hfile
    obtain ⟨data, hdata⟩ := hread file hfile
    have heq : bytesIn tree file = data.bytes := by
      rw [bytesIn, hdata]
      rfl
    rw [heq, hdata, FileCheck.faithful_ofBytes, FileTree.holdsText_iff hdata]
    exact ⟨rfl, Iff.rfl⟩
  let check := fun file => FileCheck.ofBytes file (bytesIn tree file)
  have hfiles : ∀ files : List SourceFile, (files.map check).map FileCheck.file = files := by
    intro files
    rw [List.map_map]
    exact List.map_id files
  refine ⟨⟨visited.map check, cat.waiting⟩, ?_, hfiles visited, rfl, ?_⟩
  · have hmap : visited.mapM (fun file => ((SearchPath.read tree file).map FileData.bytes).map
        (FileCheck.ofBytes file)) = .ok (visited.map check) :=
      mapM_eq_ok fun file hfile => by rw [(hbytes file hfile).1]; rfl
    unfold ProjectCheck.run
    rw [← hvisited]
    dsimp only
    rw [hmap]
    rfl
  · unfold mismatches
    rw [List.filter_map, hfiles]
    refine List.filter_congr fun file hfile => ?_
    rw [Bool.eq_iff_iff, decide_eq_true_eq, ← (hbytes file hfile).2]
    show (!(check file).faithful) = true ↔ ¬(check file).faithful = true
    simp

theorem ProjectCheck.code_output_iff (checked : ProjectCheck) (coloured : Bool) :
    (checked.output coloured).code = 0 ↔
      checked.mismatches.map FileCheck.file = [] ∧ checked.waiting = [] := by
  have hcode : (checked.output coloured).code = if checked.passed then 0 else 1 := rfl
  have hpassed : checked.passed = true ↔
      checked.mismatches.map FileCheck.file = [] ∧ checked.waiting = [] := by
    rw [passed, Bool.and_eq_true, List.isEmpty_iff, List.isEmpty_iff, List.map_eq_nil_iff]
  rw [← hpassed, hcode]
  split <;> simp_all

/-- In whatever order the scans of a catalogue have run on files that stay as they are, the check of
it holds against exactly those visited files that are no texts, and passes exactly if there are none
of them and no block waits. The visited files of a type are those of its scan that was installed
last. Checking an opened project is checking such a catalogue. -/
theorem check_passes_iff (tree : FileTree) :
    (∀ (limits : ScanLimits) (es : List System.Event), (∀ e ∈ es, e.ReadsFrom tree) →
      let start : System := { catalogue := { limits } }
      let cat := (es.foldl System.perform start).catalogue
      let visited := cat.defaultTypes.flatMap cat.visitedFiles
      (∀ t, cat.visitedFiles t =
        ((start.lastFound? es t).map fun f => f.files.toList).getD []) ∧
      ∃ checked : ProjectCheck, ∀ coloured,
        Command.output coloured tree cat .check = checked.output coloured ∧
        checked.files.map FileCheck.file = visited ∧ checked.waiting = cat.waiting ∧
        checked.mismatches.map FileCheck.file = visited.filter (¬tree.HoldsText ·) ∧
        ((checked.output coloured).code = 0 ↔
          (∀ t ∈ cat.defaultTypes, ∀ file ∈ cat.visitedFiles t, tree.HoldsText file) ∧
            cat.waiting = [])) ∧
    ∀ (s : Surroundings) (words : List String) (arguments : Arguments) (cat : Catalogue),
      s.tree = tree → Arguments.parse words = .ok arguments → arguments.command = some .check →
      openProject tree (arguments.path.getD s.directory) = .ok cat →
        run s words =
          .printed (Command.output (!(arguments.noColour || s.noColour)) tree cat .check) ∧
        ∃ (limits : ScanLimits) (es : List System.Event), (∀ e ∈ es, e.ReadsFrom tree) ∧
          (es.foldl System.perform { catalogue := { limits } }).catalogue = cat := by
  refine ⟨fun limits es hes => ?_, fun s words arguments cat htree hparse hcommand hopen => ?_⟩
  · intro start cat visited
    have hreadable := System.findsReadable_run limits hes
    have hread : ∀ file ∈ visited, tree.Readable file := by
      intro file hfile
      obtain ⟨t, -, hfile⟩ := List.mem_flatMap.mp hfile
      exact (hreadable.visited t).of_mem_toList hfile
    obtain ⟨checked, hrun, hfiles, hwaiting, hmismatches⟩ :=
      ProjectCheck.exists_of_readable rfl hread
    refine ⟨fun t => ?_, checked, fun coloured => ⟨?_, hfiles, hwaiting, hmismatches, ?_⟩⟩
    · unfold Catalogue.visitedFiles
      rw [System.files_run]
      cases start.lastFound? es t <;> rfl
    · unfold Command.output
      dsimp only
      rw [hrun]
    · rw [ProjectCheck.code_output_iff, hmismatches, hwaiting, List.filter_eq_nil_iff]
      refine and_congr_left fun _ => ?_
      simp only [decide_eq_true_eq, not_not, List.mem_flatMap]
      exact ⟨fun h t ht file hfile => h file ⟨t, ht, hfile⟩,
        fun h file ⟨t, ht, hfile⟩ => h t ht file hfile⟩
  · unfold run
    rw [hparse]
    dsimp only
    rw [hcommand, htree, hopen]
    exact ⟨rfl, exists_events_of_openProject hopen⟩

/-- One of two files has a byte that is no text. -/
theorem check_passes_iff_broken :
    let tree := (({} : FileTree).write ⟨"/p/decl.toml"⟩ ⟨Utf8.encode
      "types.material = \"material\"\nfolders = [[\"m\", \"mtr\", \"material\"]]", 0⟩).write
        ⟨"/p/m/a.mtr"⟩ ⟨Utf8.encode "moss \x7b" ++ [0xff, 0x7d], 0⟩ |>.write
        ⟨"/p/m/b.mtr"⟩ ⟨Utf8.encode "grès \x7b\x7d", 0⟩
    ∃ cat, openProject tree ⟨"/p"⟩ = .ok cat ∧ cat.waiting = [] ∧
      (cat.visitedFiles ⟨"material"⟩).map SourceFile.name = ["m/a.mtr", "m/b.mtr"] ∧
      ∃ checked : ProjectCheck,
        run { tree, directory := ⟨"/p"⟩ } ["check"] = .printed (checked.output true) ∧
        checked.mismatches.map (fun c => c.file.name) = ["m/a.mtr"] ∧
        (checked.output true).code ≠ 0 := by
  intro tree
  have hopened : (openWithin 6 tree ⟨"/p"⟩).any fun cat =>
      cat.waiting = [] ∧ cat.defaultTypes = [⟨"material"⟩] ∧
        (cat.visitedFiles ⟨"material"⟩).map SourceFile.name = ["m/a.mtr", "m/b.mtr"] ∧
        ((cat.visitedFiles ⟨"material"⟩).filter (¬tree.HoldsText ·)).map SourceFile.name =
          ["m/a.mtr"] := by decide +kernel
  obtain ⟨cat, hopen, hcat⟩ := (Option.any_eq_true _ _).mp hopened
  have hopen := openProject_of_openWithin hopen
  obtain ⟨hwaiting, htypes, hnames, hbroken⟩ := of_decide_eq_true hcat
  have hparse : Arguments.parse ["check"] = .ok { command := some .check } := by decide +kernel
  obtain ⟨hrun, limits, es, hes, hcat⟩ := (check_passes_iff tree).2 { tree, directory := ⟨"/p"⟩ }
    ["check"] { command := some .check } cat rfl hparse rfl hopen
  obtain ⟨-, checked, hchecked⟩ := (check_passes_iff tree).1 limits es hes
  obtain ⟨houtput, -, -, hmismatches, hcode⟩ := hchecked true
  rw [hcat] at houtput hmismatches hcode
  rw [htypes, List.flatMap_singleton] at hmismatches
  refine ⟨cat, hopen, hwaiting, hnames, checked, hrun.trans (congrArg _ houtput), ?_,
    fun hzero => ?_⟩
  · rw [← hbroken, ← hmismatches, List.map_map]
    rfl
  · have hall := (hcode.mp hzero).1 ⟨"material"⟩ (by simp [htypes])
    rw [List.filter_eq_nil_iff.mpr fun file hfile => by simp [hall file hfile]] at hbroken
    simp at hbroken

end Cli

end AssetDecl
