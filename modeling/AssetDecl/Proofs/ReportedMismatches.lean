import AssetDecl.Proofs.CheckedProjects

/-!
# Reported mismatches

A check reports the files that are not as they are rendered, and shows how the lines of their
decoded content differ from those of the rendering. Whether a file is reported is decided by its
bytes, but what is shown are two texts, and every text is rendered as it was read
(`Cli.FileCheck.rendered_ofBytes`). So in whatever way lines are compared, a file that is reported
is shown with all of its lines kept (`Cli.mismatch_shown_unchanged`).
-/

namespace AssetDecl

namespace Cli

/-- The decoded content of a file is rendered as it is, also where the bytes are no text. -/
theorem FileCheck.rendered_ofBytes (file : SourceFile) (bytes : List UInt8) :
    (ofBytes file bytes).rendered = (ofBytes file bytes).content :=
  SyntaxTree.render_parse _

theorem FileCheck.changes_ofBytes (file : SourceFile) (bytes : List UInt8) :
    (ofBytes file bytes).changes =
      (Text.lines (ofBytes file bytes).content.toList).map .kept := by
  unfold changes
  rw [rendered_ofBytes, Text.LineChange.between_self]

/-! ## The files of a check -/

theorem mem_of_mapM_eq_ok {ε α β : Type} {f : α → Except ε β} {as : List α} {bs : List β}
    (h : as.mapM f = .ok bs) :
    (∀ b ∈ bs, ∃ a ∈ as, f a = .ok b) ∧ ∀ a ∈ as, ∃ b ∈ bs, f a = .ok b := by
  induction as generalizing bs with
  | nil =>
    obtain rfl : [] = bs := Except.ok.inj h
    simp
  | cons a as ih =>
    rw [List.mapM_cons] at h
    cases ha : f a with
    | error e => simp [ha, bind, Except.bind] at h
    | ok b =>
      cases has : as.mapM f with
      | error e => simp [ha, has, bind, Except.bind] at h
      | ok bs' =>
        simp only [ha, has, bind, Except.bind] at h
        obtain rfl : b :: bs' = bs := Except.ok.inj h
        obtain ⟨hfrom, hto⟩ := ih has
        refine ⟨fun b' hb' => ?_, fun a' ha' => ?_⟩
        · rcases List.mem_cons.mp hb' with rfl | hb'
          · exact ⟨a, List.mem_cons_self, ha⟩
          · obtain ⟨a', ha', hf⟩ := hfrom b' hb'
            exact ⟨a', List.mem_cons_of_mem _ ha', hf⟩
        · rcases List.mem_cons.mp ha' with rfl | ha'
          · exact ⟨b, List.mem_cons_self, ha⟩
          · obtain ⟨b', hb', hf⟩ := hto a' ha'
            exact ⟨b', List.mem_cons_of_mem _ hb', hf⟩

namespace ProjectCheck

variable {cat : Catalogue} {read : SourceFile → Except FileError (List UInt8)}
  {checked : ProjectCheck} {c : FileCheck} {file : SourceFile} {bytes : List UInt8}

/-- A check that comes to its end has checked the visited files and no others. -/
theorem mem_files_iff (h : run cat read = .ok checked) :
    c ∈ checked.files ↔ c.file ∈ cat.defaultTypes.flatMap cat.visitedFiles ∧
      ∃ bytes, read c.file = .ok bytes ∧ c = .ofBytes c.file bytes := by
  unfold run at h
  dsimp only at h
  generalize cat.defaultTypes.flatMap cat.visitedFiles = visited at h ⊢
  cases hfiles : visited.mapM fun file => (read file).map (FileCheck.ofBytes file) with
  | error e => simp [hfiles, bind, Except.bind] at h
  | ok files =>
    simp only [hfiles, bind, Except.bind] at h
    obtain rfl : ⟨files, cat.waiting⟩ = checked := Except.ok.inj h
    obtain ⟨hfrom, hto⟩ := mem_of_mapM_eq_ok hfiles
    constructor
    · intro hc
      obtain ⟨file, hfile, hread⟩ := hfrom c hc
      cases hbytes : read file with
      | error e => simp [hbytes, Except.map] at hread
      | ok bytes =>
        rw [hbytes] at hread
        obtain rfl : FileCheck.ofBytes file bytes = c := Except.ok.inj hread
        exact ⟨hfile, bytes, hbytes, rfl⟩
    · rintro ⟨hfile, bytes, hbytes, hc⟩
      obtain ⟨c', hc', hread⟩ := hto c.file hfile
      rw [hbytes] at hread
      rw [hc, show FileCheck.ofBytes c.file bytes = c' from Except.ok.inj hread]
      exact hc'

/-- A visited file is reported exactly if its bytes are the encoding of no text. -/
theorem mem_mismatches_iff (h : run cat read = .ok checked) :
    c ∈ checked.mismatches ↔ c.file ∈ cat.defaultTypes.flatMap cat.visitedFiles ∧
      ∃ bytes, read c.file = .ok bytes ∧ c = .ofBytes c.file bytes ∧
        ¬∃ text, Utf8.encode text = bytes := by
  have hfaithful : ∀ bytes, c = .ofBytes c.file bytes →
      (c.faithful = true ↔ ∃ text, Utf8.encode text = bytes) := by
    intro bytes hc
    rw [hc]
    exact FileCheck.faithful_ofBytes c.file bytes
  unfold mismatches
  rw [List.mem_filter, mem_files_iff h, Bool.not_eq_true', ← Bool.not_eq_true, and_assoc]
  refine and_congr_right fun _ => ⟨?_, ?_⟩
  · rintro ⟨⟨bytes, hbytes, hc⟩, hmismatch⟩
    exact ⟨bytes, hbytes, hc, (hfaithful bytes hc).not.mp hmismatch⟩
  · rintro ⟨bytes, hbytes, hc, hbroken⟩
    exact ⟨⟨bytes, hbytes, hc⟩, (hfaithful bytes hc).not.mpr hbroken⟩

end ProjectCheck

/-- A file whose lines are all kept is shown line by line, and no line is marked. -/
theorem FileCheck.mismatchText_of_kept {c : FileCheck} {lines : List (List Char)}
    (h : c.changes = lines.map .kept) (coloured : Bool) :
    c.mismatchText coloured =
      Style.red.paint coloured "mismatch:" ++ " " ++ c.location ++ " does not round-trip\n" ++
        String.join (lines.map fun line => "   " ++ String.ofList (Text.endLine line)) := by
  unfold mismatchText
  rw [h, List.map_map]
  rfl

/-- A check reports exactly the visited files that are no texts. In whatever way texts are compared
line by line, as long as all lines of equal texts are kept, no line of a reported file is shown as
deleted or inserted: what is shown is its decoded content. -/
theorem mismatch_shown_unchanged {diff : String → String → List Text.LineChange}
    (hdiff : ∀ text, ∀ change ∈ diff text text, ∃ line, change = .kept line)
    {cat : Catalogue} {read : SourceFile → Except FileError (List UInt8)} {checked : ProjectCheck}
    (h : ProjectCheck.run cat read = .ok checked) :
    (∀ t ∈ cat.defaultTypes, ∀ file ∈ cat.visitedFiles t, ∀ bytes, read file = .ok bytes →
      ((∃ c ∈ checked.mismatches, c.file = file) ↔ ¬∃ text, Utf8.encode text = bytes)) ∧
    ∀ c ∈ checked.mismatches,
      (∃ t ∈ cat.defaultTypes, c.file ∈ cat.visitedFiles t) ∧
      (∃ bytes, read c.file = .ok bytes ∧ c.content = Utf8.decodeLossy bytes) ∧
      (∀ change ∈ diff c.content c.rendered, ∃ line, change = .kept line) ∧
      ∀ coloured, c.mismatchText coloured =
        Style.red.paint coloured "mismatch:" ++ " " ++ c.location ++ " does not round-trip\n" ++
          String.join ((Text.lines c.content.toList).map fun line =>
            "   " ++ String.ofList (Text.endLine line)) := by
  constructor
  · intro t ht file hfile bytes hbytes
    constructor
    · rintro ⟨c, hc, rfl⟩
      obtain ⟨-, bytes', hbytes', -, hbroken⟩ := (ProjectCheck.mem_mismatches_iff h).mp hc
      rwa [Except.ok.inj (hbytes.symm.trans hbytes')]
    · intro hbroken
      exact ⟨.ofBytes file bytes, (ProjectCheck.mem_mismatches_iff h).mpr
        ⟨List.mem_flatMap.mpr ⟨t, ht, hfile⟩, bytes, hbytes, rfl, hbroken⟩, rfl⟩
  · intro c hc
    obtain ⟨hvisited, bytes, hbytes, hofBytes, -⟩ := (ProjectCheck.mem_mismatches_iff h).mp hc
    have hrendered : c.rendered = c.content := by
      rw [hofBytes, FileCheck.rendered_ofBytes]
    have hchanges : c.changes = (Text.lines c.content.toList).map .kept := by
      rw [hofBytes, FileCheck.changes_ofBytes]
    refine ⟨List.mem_flatMap.mp hvisited, ⟨bytes, hbytes, ?_⟩, ?_,
      FileCheck.mismatchText_of_kept hchanges⟩
    · rw [hofBytes]
      rfl
    · rw [hrendered]
      exact hdiff c.content

/-- The second of three lines has a byte that is no text. -/
theorem mismatch_shown_unchanged_moss :
    let diff (old new : String) :=
      Text.LineChange.between (Text.lines old.toList) (Text.lines new.toList)
    let moss : SourceFile := ⟨"m/a.mtr", ⟨"/p"⟩, "p", ⟨13, 0⟩⟩
    let cat : Catalogue :=
      { folders := [⟨"m/", ".mtr", ⟨"material"⟩⟩]
        visited := (∅ : Std.ExtTreeMap DeclType Visited).insert ⟨"material"⟩
          { files := (∅ : FileSet).insert moss } }
    let read (_ : SourceFile) : Except FileError (List UInt8) :=
      .ok (Utf8.encode "moss \x7b\n  " ++ 0xe2 :: Utf8.encode "\n\x7d\n")
    ∃ c, ProjectCheck.run cat read = .ok ⟨[c], []⟩ ∧ c.file = moss ∧ c.faithful = false ∧
      (∀ change ∈ diff c.content c.rendered, ∃ line, change = .kept line) ∧
      c.mismatchText false = "mismatch: m/a.mtr does not round-trip\n" ++
        "   moss \x7b\n     \uFFFD\n   \x7d\n" := by
  intro diff moss cat read
  let c : FileCheck := .ofBytes moss (Utf8.encode "moss \x7b\n  " ++ 0xe2 :: Utf8.encode "\n\x7d\n")
  have hrun : ProjectCheck.run cat read = .ok ⟨[c], []⟩ := rfl
  have hbroken : c.faithful = false := by decide +kernel
  have hdiff : ∀ text, ∀ change ∈ diff text text, ∃ line, change = .kept line := by
    intro text change hchange
    rw [show diff text text = _ from Text.LineChange.between_self _] at hchange
    obtain ⟨line, -, rfl⟩ := List.mem_map.mp hchange
    exact ⟨line, rfl⟩
  have hreported : c ∈ (⟨[c], []⟩ : ProjectCheck).mismatches := by
    simp [ProjectCheck.mismatches, hbroken]
  obtain ⟨-, -, hkept, htext⟩ := (mismatch_shown_unchanged hdiff hrun).2 c hreported
  refine ⟨c, hrun, rfl, hbroken, hkept, ?_⟩
  rw [htext]
  decide +kernel

/-- A file of a project is reported, and none of its lines is shown as deleted or inserted. -/
theorem reported_without_change :
    let tree := (({} : FileTree).write ⟨"/p/decl.toml"⟩ ⟨Utf8.encode
      "types.material = \"material\"\nfolders = [[\"m\", \"mtr\", \"material\"]]", 0⟩).write
        ⟨"/p/m/a.mtr"⟩ ⟨Utf8.encode "moss \x7b" ++ [0xff, 0x7d], 0⟩
    ∃ (checked : ProjectCheck) (c : FileCheck),
      run { tree, directory := ⟨"/p"⟩ } ["check", "--no-color"] =
        .printed (checked.output false) ∧
      (checked.output false).err =
        "mismatch: m/a.mtr does not round-trip\n   moss \x7b\uFFFD\x7d\n" ∧
      checked.mismatches = [c] ∧ c.changes = [.kept "moss \x7b\uFFFD\x7d".toList] ∧
      ∀ line, .deleted line ∉ c.changes ∧ .inserted line ∉ c.changes := by
  intro tree
  let read := fun file => (SearchPath.read tree file).map FileData.bytes
  have hopened : (openWithin 6 tree ⟨"/p"⟩).any fun cat =>
      match ProjectCheck.run cat read with
      | .error _ => false
      | .ok checked => (checked.output false).err =
            "mismatch: m/a.mtr does not round-trip\n   moss \x7b\uFFFD\x7d\n" ∧
          checked.mismatches.map FileCheck.changes = [[.kept "moss \x7b\uFFFD\x7d".toList]] := by
    decide +kernel
  obtain ⟨cat, hopen, hcat⟩ := (Option.any_eq_true _ _).mp hopened
  cases hchecked : ProjectCheck.run cat read with
  | error e => simp [hchecked] at hcat
  | ok checked =>
    rw [hchecked] at hcat
    obtain ⟨herr, hchanges⟩ := of_decide_eq_true hcat
    obtain ⟨c, hmismatches, hc⟩ := List.map_eq_singleton_iff.mp hchanges
    have hparse : Arguments.parse ["check", "--no-color"] =
        .ok { noColour := true, command := some .check } := by decide +kernel
    have hrun : run { tree, directory := ⟨"/p"⟩ } ["check", "--no-color"] =
        .printed (checked.output false) := by
      unfold run
      rw [hparse]
      dsimp only [Option.getD_none]
      rw [openProject_of_openWithin hopen]
      dsimp only [Command.output]
      rw [hchecked]
      rfl
    exact ⟨checked, c, hrun, herr, hmismatches, hc, fun line => by simp [hc]⟩

end Cli

end AssetDecl
