import AssetDecl.Proofs.WaitingBlocks

/-!
# Scanned folders

A scan that is run on files and bindings that stay as they are finds the blocks of what it visits,
sorted by the bindings (`Scan.run_eq_visits`). It visits each of the listed files that it admits
once, where it is listed first (`Visits.foldlM_visit`), and each of their named blocks is found once
(`Findings.perm_ofVisits`). Hence what a scan of some folders finds can be told from their files
(`Scan.run_folders`).
-/

namespace AssetDecl

/-! ## Distinct files -/

namespace SourceFile

variable {file file' : SourceFile}

/-- Files are the same if no order tells them apart. -/
def same (file file' : SourceFile) : Bool :=
  compare file file' == .eq

theorem size_eq_of_same (h : file.same file' = true) :
    file.fingerprint.size = file'.fingerprint.size := by
  have h : order file file' = .eq := beq_iff_eq.1 h
  simp only [order, compareLex_eq_eq] at h
  exact Std.LawfulEqOrd.eq_of_compare (α := Nat) h.2.2.2.1

/-- The files in order, without those that are the same as an earlier one. -/
def distinct (files : List SourceFile) : List SourceFile :=
  files.eraseDupsBy fun later earlier => earlier.same later

@[simp] theorem distinct_nil : distinct [] = [] := rfl

theorem distinct_cons (file : SourceFile) (files : List SourceFile) :
    distinct (file :: files) = file :: distinct (files.filter fun later => !file.same later) := by
  unfold distinct
  rw [List.eraseDupsBy_cons]
  congr 3
  funext later
  cases file.same later <;> rfl

/-- Some files may be chosen before or after the distinct ones are, if none is chosen without those
that are the same. -/
theorem distinct_filter {p : SourceFile → Bool} (files : List SourceFile)
    (hp : ∀ file ∈ files, ∀ file' ∈ files, file.same file' = true → p file = p file') :
    distinct (files.filter p) = (distinct files).filter p := by
  match files with
  | [] => rfl
  | file :: files =>
    have hothers : ∀ file' ∈ files.filter (fun later => !file.same later), file' ∈ file :: files :=
      fun file' hfile' => List.mem_cons_of_mem _ (List.mem_of_mem_filter hfile')
    have ih := distinct_filter (files.filter fun later => !file.same later) fun file' hfile' =>
      fun file'' hfile'' => hp file' (hothers file' hfile') file'' (hothers file'' hfile'')
    rw [distinct_cons, List.filter_cons, List.filter_cons, ← ih, List.filter_comm]
    split
    · rw [distinct_cons]
    · rename_i hfile
      congr 1
      refine (List.filter_eq_self.2 fun later hlater => ?_).symm
      obtain ⟨hlater, hchosen⟩ := List.mem_filter.1 hlater
      rw [Bool.not_eq_true', Bool.eq_false_iff]
      intro hsame
      rw [← hp file List.mem_cons_self later (List.mem_cons_of_mem _ hlater) hsame] at hchosen
      exact hfile hchosen
termination_by files.length
decreasing_by exact Nat.lt_succ_of_le (List.length_filter_le _ _)

end SourceFile

/-! ## Files that are admitted -/

namespace FileAccess

variable {access : FileAccess} {limits : ScanLimits} {file file' : SourceFile}

/-- The tree of a file, if it can be opened and read to its end. -/
def tree? (access : FileAccess) (file : SourceFile) : Option SyntaxTree :=
  match access.openFile file with
  | .stream stream => (SyntaxTree.readStream stream).toOption.map Prod.fst
  | .failed _ | .crashed => none

/-- The named blocks of a file in document order. -/
def namedBlocks (access : FileAccess) (file : SourceFile) : List BlockSource :=
  ((access.tree? file).map fun tree => tree.capture file).getD []

/-- The file is not too large, and can be opened and read to its end. -/
def admits (access : FileAccess) (limits : ScanLimits) (file : SourceFile) : Bool :=
  file.fingerprint.size ≤ limits.sizeLimit && (access.tree? file).isSome

theorem read_eq (h : access.openFile file ≠ .crashed) :
    access.read file =
      match access.tree? file with
      | some tree => .blocks (tree.capture file)
      | none => .unreadable := by
  unfold tree? read
  cases hopened : access.openFile file with
  | crashed => exact absurd hopened h
  | failed reason => rfl
  | stream stream =>
    dsimp only
    cases SyntaxTree.readStream stream <;> rfl

theorem admits_congr (hsame : file.same file' = true)
    (hopen : access.openFile file = access.openFile file') :
    access.admits limits file = access.admits limits file' := by
  rw [admits, tree?, hopen, SourceFile.size_eq_of_same hsame]
  rfl

/-- The blocks of a file that cannot be read are none, and the others have names. -/
theorem name_ne_empty_of_mem_namedBlocks {block : BlockSource}
    (hblock : block ∈ access.namedBlocks file) : block.name ≠ "" := by
  unfold namedBlocks at hblock
  cases htree : access.tree? file with
  | none => simp [htree] at hblock
  | some tree =>
    have hopen : access.openFile file ≠ .crashed := by
      intro hcrashed
      simp [tree?, hcrashed] at htree
    have hread := read_eq hopen
    rw [htree] at hread hblock
    exact name_ne_empty_of_read hread hblock

end FileAccess

/-! ## Visits -/

namespace Visits

variable {access : FileAccess} {limits : ScanLimits}

/-- Some files are visited, all that can be read, that are not too large and not the same as one
visited before. -/
theorem foldlM_visit (files : List SourceFile) (v : Visits)
    (hcalm : ∀ file ∈ files, access.openFile file ≠ .crashed) :
    files.foldlM (visit access limits) v =
      let new := SourceFile.distinct
        (files.filter fun file => !v.files.contains file && access.admits limits file)
      some ⟨v.files.insertMany new, v.blocks ++ new.flatMap access.namedBlocks⟩ := by
  induction files generalizing v with
  | nil =>
    show some v = _
    simp
  | cons file files ih =>
    obtain ⟨hcalm, hothers⟩ := List.forall_mem_cons.1 hcalm
    rw [List.foldlM_cons, List.filter_cons]
    have hvisit : visit access limits v file =
        some (if !v.files.contains file && access.admits limits file then
          v.add file (access.namedBlocks file) else v) := by
      rw [visit, FileAccess.read_eq hcalm, FileAccess.admits, FileAccess.namedBlocks]
      cases v.files.contains file <;> cases decide (file.fingerprint.size ≤ limits.sizeLimit) <;>
        cases access.tree? file <;> rfl
    rw [hvisit, Option.bind_eq_bind, Option.bind_some, ih _ hothers]
    split
    · simp [add, SourceFile.distinct_cons, SourceFile.same, Std.ExtTreeSet.contains_insert,
        Std.ExtTreeSet.insertMany_cons, List.filter_filter, Bool.and_assoc]
    · rfl

end Visits

/-! ## Sorted blocks -/

namespace Findings

variable {b : Bindings} {t t' : DeclType} {f : Findings}

/-- What has been visited, sorted by the bindings. -/
def ofVisits (b : Bindings) (t : DeclType) (v : Visits) : Findings :=
  { v.blocks.foldl (addBlock b t) {} with files := v.files }

theorem foldl_addBlock_files (b : Bindings) (t : DeclType) (f : Findings) (files : FileSet)
    (blocks : List BlockSource) :
    blocks.foldl (addBlock b t) { f with files } =
      { blocks.foldl (addBlock b t) f with files } := by
  induction blocks generalizing f with
  | nil => rfl
  | cons block blocks ih =>
    have hblock : addBlock b t { f with files } block = { addBlock b t f block with files } := by
      unfold addBlock blocksOf
      cases b.assign block.keyword t <;> rfl
    rw [List.foldl_cons, List.foldl_cons, hblock, ih]

theorem addFile_ofVisits (b : Bindings) (t : DeclType) (v : Visits) (file : SourceFile)
    (blocks : List BlockSource) :
    (ofVisits b t v).addFile b t file blocks = ofVisits b t (v.add file blocks) := by
  unfold addFile ofVisits Visits.add
  rw [foldl_addBlock_files, List.foldl_append]

theorem blocksOf_ofVisits (b : Bindings) (t : DeclType) (v : Visits) (t' : DeclType) :
    (ofVisits b t v).blocksOf t' =
      v.blocks.filter fun block => b.assign block.keyword t = .assigned t' := by
  show (v.blocks.foldl (addBlock b t) {}).blocksOf t' = _
  induction v.blocks using List.reverseRecOn with
  | nil => simp [blocksOf]
  | append_singleton blocks block ih =>
    rw [List.foldl_append, List.foldl_cons, List.foldl_nil, blocksOf_addBlock, ih,
      List.filter_append, List.filter_singleton, Bindings.assign_eq]
    cases b.meet (.of block.keyword t) <;> simp

/-- A block without a type, with what it waits for and where it comes from. -/
def wanting? (b : Bindings) (t : DeclType) (block : BlockSource) : Option WaitingBlock :=
  match b.assign block.keyword t with
  | .wanting need => some ⟨need, block, t⟩
  | .assigned _ => none

theorem block_of_wanting? {block : BlockSource} {p : WaitingBlock}
    (h : wanting? b t block = some p) : p.block = block := by
  unfold wanting? at h
  split at h
  · exact Option.some.inj h ▸ rfl
  · simp at h

theorem waiting_ofVisits (b : Bindings) (t : DeclType) (v : Visits) :
    (ofVisits b t v).waiting = v.blocks.filterMap (wanting? b t) := by
  show (v.blocks.foldl (addBlock b t) {}).waiting = _
  induction v.blocks using List.reverseRecOn with
  | nil => rfl
  | append_singleton blocks block ih =>
    rw [List.foldl_append, List.foldl_cons, List.foldl_nil, waiting_addBlock, ih,
      List.filterMap_append, List.filterMap_cons, List.filterMap_nil, wanting?, Bindings.assign_eq]
    cases b.meet (.of block.keyword t) <;> simp [WaitingBlock.ofBlock]

/-- A block with its type. -/
def assigned? (b : Bindings) (t : DeclType) (block : BlockSource) :
    Option (DeclType × BlockSource) :=
  match b.assign block.keyword t with
  | .assigned t' => some (t', block)
  | .wanting _ => none

theorem assigned_perm (b : Bindings) (t : DeclType) (v : Visits) :
    (ofVisits b t v).assigned.Perm (v.blocks.filterMap (assigned? b t)) := by
  refine List.perm_iff_count.2 fun ⟨t', block⟩ => ?_
  have hcount : List.count (t', block) (ofVisits b t v).assigned =
      List.count block ((ofVisits b t v).blocksOf t') := by
    have hfilter := congrArg List.length
      (filter_assigned (ofVisits b t v) t' fun other => other == block)
    rw [List.length_map, ← List.countP_eq_length_filter, ← List.countP_eq_length_filter] at hfilter
    refine Eq.trans (List.countP_congr fun p _ => ?_) hfilter
    simp [Prod.ext_iff]
  rw [hcount, blocksOf_ofVisits, List.count, List.count, List.countP_filter, List.countP_filterMap]
  refine List.countP_congr fun other _ => ?_
  unfold assigned?
  cases b.assign other.keyword t <;> simp [and_comm]

/-- Every visited block has a type or waits. -/
theorem perm_ofVisits (b : Bindings) (t : DeclType) (v : Visits) :
    ((ofVisits b t v).assigned.map Prod.snd ++
      (ofVisits b t v).waiting.map WaitingBlock.block).Perm v.blocks := by
  rw [waiting_ofVisits]
  refine (((assigned_perm b t v).map Prod.snd).append_right _).trans ?_
  induction v.blocks with
  | nil => exact .nil
  | cons block blocks ih =>
    rw [List.filterMap_cons, List.filterMap_cons, assigned?, wanting?]
    cases b.assign block.keyword t with
    | assigned t' => exact ih.cons block
    | wanting need => exact List.perm_middle.trans (ih.cons block)

end Findings

/-! ## Whole scans -/

namespace Scan

variable {access : FileAccess} {b : Bindings} {s : Scan} {v : Visits}

/-- A scan that is run while nothing changes finds the blocks of what it visits, sorted by the
bindings. -/
theorem run_eq_visits (hfound : s.found = .ofVisits b s.defaultType v) :
    s.run access b = (s.visits access v).map (.ofVisits b s.defaultType) := by
  have hfiles : s.found.files = v.files := by rw [hfound]; rfl
  fun_induction runUntil access b (fun _ => false) s generalizing v with
  | case1 s s' hstep _ hstop => cases hcurrent : s'.current <;> simp [hcurrent] at hstop
  | case2 s s' hstep _ hstop ih =>
    rw [run_of_running hstep, ← defaultType_step hstep]
    rcases visits_step hfiles hstep with ⟨hsame, hvisits⟩ | ⟨file, blocks, hadded, hvisits⟩
    · rw [← hvisits]
      refine ih ?_ (by rw [hsame, hfiles])
      rw [hsame, hfound, defaultType_step hstep]
    · rw [hfound, Findings.addFile_ofVisits, ← defaultType_step hstep] at hadded
      rw [← hvisits]
      exact ih hadded (by rw [hadded]; rfl)
  | case3 s f hstep =>
    rw [run_of_ended (by simp [hstep]), hstep, visits_of_finished hstep, Option.map_some, ← hfound,
      found_of_finished hstep]
    rfl
  | case4 s hstep =>
    rw [run_of_ended (by simp [hstep]), hstep, visits_of_crashed hfiles hstep]
    rfl

/-- What a scan of some folders finds if opening a file never stops it. It visits the listed files
that it admits, each once and where it is listed first; if a file is opened like those that are the
same, these are the distinct listed files that it admits. Of all their blocks, in the order of the
files and within a file, those of a type are the ones that the bindings assign it, and those without
a type wait. So each named block is found once, and no other. -/
theorem run_folders (access : FileAccess) (b : Bindings) (t : DeclType) (limits : ScanLimits)
    (folders : List DeclFolder) :
    let listed := folders.flatMap fun folder =>
      access.files folder.folder folder.extension limits.depthLimit
    let files := SourceFile.distinct (listed.filter (access.admits limits))
    let blocks := files.flatMap access.namedBlocks
    (∀ file ∈ listed, access.openFile file ≠ .crashed) →
    ((∀ file ∈ listed, ∀ file' ∈ listed, file.same file' = true →
        access.openFile file = access.openFile file') →
      files = (SourceFile.distinct listed).filter (access.admits limits)) ∧
    ∃ found : Findings,
      Scan.run access b { defaultType := t, limits, folders } = some found ∧
      found.files = .ofList files ∧
      (∀ t', found.blocksOf t' =
        blocks.filter fun block => b.assign block.keyword t = .assigned t') ∧
      found.waiting = blocks.filterMap (Findings.wanting? b t) ∧
      (found.assigned.map Prod.snd ++ found.waiting.map WaitingBlock.block).Perm blocks ∧
      ∀ block ∈ blocks, block.name ≠ "" := by
  intro listed files blocks hcalm
  have hvisits : Scan.visits access { defaultType := t, limits, folders } {} =
      some ⟨.ofList files, blocks⟩ := by
    show listed.foldlM (Visits.visit access limits) {} = _
    rw [Visits.foldlM_visit listed {} hcalm, Std.ExtTreeSet.ofList_eq_insertMany_empty]
    simp [files, blocks]
  refine ⟨fun hopen => SourceFile.distinct_filter listed fun file hfile file' hfile' hsame =>
    FileAccess.admits_congr hsame (hopen file hfile file' hfile' hsame), ?_⟩
  refine ⟨.ofVisits b t ⟨.ofList files, blocks⟩, ?_, rfl, Findings.blocksOf_ofVisits b t _,
    Findings.waiting_ofVisits b t _, Findings.perm_ofVisits b t _, fun block hblock => ?_⟩
  · rw [run_eq_visits (v := {}) rfl, hvisits, Option.map_some]
  · obtain ⟨file, -, hblock⟩ := List.mem_flatMap.1 hblock
    exact FileAccess.name_ne_empty_of_mem_namedBlocks hblock

/-- Two folders overlap. Of the files that both list one cannot be opened and one is too large. -/
theorem run_folders_overlapping :
    let t : DeclType := ⟨"material"⟩
    let texts := [("m/a.mtr", "stone \x7b\x7d sound noise \x7b\x7d \x7b\x7d"),
      ("m/b/c.mtr", "Material stone \x7b 1 \x7d"),
      ("m/b/d.mtr", "material moss \x7b lots of it \x7d")]
    let file := fun name size => (⟨name, ⟨"/"⟩, "base", ⟨size, 0⟩⟩ : SourceFile)
    let access : FileAccess := { FileAccess.ofTexts texts with
      files := fun folder _ _ =>
        (if folder = "m/" then [file "m/a.mtr" 24] else []) ++
          [file "m/b/a.mtr" 9, file "m/b/c.mtr" 20, file "m/b/d.mtr" 32] }
    let b : Bindings :=
      ⟨.ofList [("material", Creator.plain t)], .ofList [(t, Creator.plain t)]⟩
    let folders := [DeclFolder.normalized t "m" "mtr", .normalized t "m/b" "mtr"]
    let listed := folders.flatMap fun folder => access.files folder.folder folder.extension 99
    (∀ file ∈ listed, access.openFile file ≠ .crashed) ∧
    (∀ file ∈ listed, ∀ file' ∈ listed, file.same file' = true →
      access.openFile file = access.openFile file') ∧
    ∃ found : Findings,
      Scan.run access b { defaultType := t, limits := ⟨99, 24⟩, folders } = some found ∧
      found.files = .ofList [file "m/a.mtr" 24, file "m/b/c.mtr" 20] ∧
      ((found.blocksOf t).map fun block => (block.name, block.contents)) =
        [("stone", ""), ("stone", " 1 ")] ∧
      (found.waiting.map fun p => (p.need, p.block.name, p.origin)) =
        [(.keyword "sound", "noise", t)] := by
  intro t texts file access b folders listed
  have hcalm : ∀ file ∈ listed, access.openFile file ≠ .crashed := by decide +kernel
  have hopen : ∀ file ∈ listed, ∀ file' ∈ listed, file.same file' = true →
      access.openFile file = access.openFile file' := by
    decide +kernel
  obtain ⟨hfiles, found, hrun, hfound, hblocks, hwaiting, -, -⟩ :=
    run_folders access b t ⟨99, 24⟩ folders hcalm
  refine ⟨hcalm, hopen, found, hrun, ?_, ?_, ?_⟩
  · rw [hfound, hfiles hopen]
    congr 1
    decide +kernel
  · rw [hblocks]
    decide +kernel
  · rw [hwaiting]
    decide +kernel

end Scan

end AssetDecl
