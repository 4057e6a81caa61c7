import AssetDecl.Proofs.ScannedFolders

/-!
# Failing streams

A stream that fails from some byte on is never taken for one that ends there. Parsing it fails
exactly if that byte is looked at, which is the case up to the look for a byte behind the last one
(`readStream_of_failsFrom`). All that a scan finds comes from files that are read to their end
(`Scan.comesFromRead_run`), and what it finds is the same as if a file that is not were not there
(`Scan.run_without`).
-/

namespace AssetDecl

/-! ## Streams that fail from a byte on -/

namespace ByteStream

variable {s : ByteStream} {content : List UInt8} {n : ℕ} {reason : String}

/-- The stream delivers `content` in some fills, but looking at byte number `n` or at one behind it
fails. The end of the content is found by looking for one byte more. -/
structure FailsFrom (s : ByteStream) (content : List UInt8) (n : ℕ) (reason : String) : Prop where
  bytes_eq : s.bytes = content.take n
  ending_eq : s.ending = if n ≤ content.length then .failing reason else .finished

theorem bytesOf_append (fills fills' : List Fill) :
    bytesOf (fills ++ fills') = bytesOf fills ++ bytesOf fills' := by
  induction fills with
  | nil => rfl
  | cons fill fills ih => cases fill <;> simp [bytesOf, ih]

theorem bytesOf_interruptEach (fills : List Fill) :
    bytesOf (interruptEach fills) = bytesOf fills := by
  induction fills with
  | nil => rfl
  | cons fill fills ih =>
    rw [interruptEach, List.flatMap_cons, bytesOf_append, ← interruptEach, ih]
    cases fill <;> simp [bytesOf]

theorem bytesOf_chunks (size position : ℕ) (bytes : List UInt8) :
    bytesOf (chunks size position bytes) = bytes := by
  induction bytes generalizing position with
  | nil => rfl
  | cons b rest ih =>
    have ih := ih (position + 1)
    rw [chunks]
    split
    · rename_i second others fills hchunks
      rw [hchunks] at ih
      split <;> simpa [bytesOf] using ih
    · simpa [bytesOf] using ih

theorem bytesOf_fills (size : ℕ) (interrupted : Bool) (shown : List UInt8) :
    bytesOf (if interrupted then interruptEach (chunks size 0 shown) ++ [.interrupted]
      else chunks size 0 shown) = shown := by
  split
  · rw [bytesOf_append, bytesOf_interruptEach, bytesOf_chunks]
    exact List.append_nil shown
  · exact bytesOf_chunks size 0 shown

theorem failsFrom_deliver (content : List UInt8) (size : ℕ) (interrupted : Bool) (n : ℕ)
    (reason : String) :
    (deliver content size interrupted (some n) reason).FailsFrom content n reason := by
  unfold deliver
  by_cases hn : n ≤ content.length
  · simp only [if_pos hn]
    exact ⟨bytesOf_fills size interrupted _, (if_pos hn).symm⟩
  · simp only [if_neg hn]
    have hall : content.take n = content := List.take_of_length_le (by omega)
    exact ⟨(bytesOf_fills size interrupted _).trans hall.symm, (if_neg hn).symm⟩

end ByteStream

theorem ByteStream.bytes_ofBytes (content : List UInt8) : (ofBytes content).bytes = content := by
  cases content with
  | nil => rfl
  | cons first rest => exact List.append_nil _

/-- A stream is parsed as all of its content, unless it fails before the end has been looked at. -/
theorem SyntaxTree.readStream_of_failsFrom {s : ByteStream} {content : List UInt8} {n : ℕ}
    {reason : String} (h : s.FailsFrom content n reason) :
    readStream s =
      if n ≤ content.length then .error reason
      else .ok (read (String.ofList (Cursor.rest (ByteCursor.ofStream (.ofBytes content))))) := by
  have hrest := Cursor.rest_of_shows (ByteCursor.shows_ofStream (.ofBytes content))
  rw [ByteStream.bytes_ofBytes] at hrest
  rw [readStream_eq, h.ending_eq, h.bytes_eq, hrest]
  by_cases hn : n ≤ content.length
  · rw [if_pos hn, if_pos hn]
    rfl
  · rw [if_neg hn, if_neg hn, List.take_of_length_le (by omega)]
    rfl

/-! ## Files that are not read to their end -/

namespace FileAccess

variable {access : FileAccess} {limits : ScanLimits} {file : SourceFile}

/-- Access that lists a file no more. -/
def without (access : FileAccess) (file : SourceFile) : FileAccess :=
  { access with files := fun folder extension depth =>
      (access.files folder extension depth).filter (· ≠ file) }

theorem tree?_of_read {blocks : List BlockSource} (h : access.read file = .blocks blocks) :
    ∃ tree, access.tree? file = some tree ∧ blocks = tree.capture file := by
  have hopen : access.openFile file ≠ .crashed := by
    intro hcrashed
    simp [read, hcrashed] at h
  rw [read_eq hopen] at h
  cases htree : access.tree? file with
  | none => simp [htree] at h
  | some tree =>
    rw [htree] at h
    exact ⟨tree, rfl, (Reading.blocks.inj h).symm⟩

end FileAccess

namespace Visits

variable {access : FileAccess} {limits : ScanLimits} {v v' : Visits} {file : SourceFile}

/-- The visited files are read to their end, and the blocks are theirs. -/
structure ComeFromRead (access : FileAccess) (v : Visits) : Prop where
  files : ∀ file ∈ v.files.toList, (access.tree? file).isSome
  blocks : ∀ block ∈ v.blocks, ∃ file, block.file = some file ∧ (access.tree? file).isSome

theorem ComeFromRead.visit (h : v.ComeFromRead access)
    (hvisit : Visits.visit access limits v file = some v') : v'.ComeFromRead access := by
  unfold Visits.visit at hvisit
  split at hvisit
  · cases hread : access.read file with
    | crashed => simp [hread] at hvisit
    | unreadable =>
      rw [hread] at hvisit
      exact Option.some.inj hvisit ▸ h
    | blocks blocks =>
      rw [hread] at hvisit
      obtain rfl := Option.some.inj hvisit
      obtain ⟨tree, htree, rfl⟩ := FileAccess.tree?_of_read hread
      have hsome : (access.tree? file).isSome := by rw [htree]; rfl
      constructor
      · intro file' hfile'
        rw [FileSet.mem_toList_iff, Visits.add, Std.ExtTreeSet.get?_insert] at hfile'
        split at hfile'
        · exact Option.some.inj hfile' ▸ hsome
        · exact h.files file' (FileSet.mem_toList_iff.2 hfile')
      · intro block hblock
        rcases List.mem_append.1 hblock with hblock | hblock
        · exact h.blocks block hblock
        · obtain ⟨parsed, -, rfl⟩ := List.mem_map.1 hblock
          exact ⟨file, rfl, hsome⟩
  · exact Option.some.inj hvisit ▸ h

theorem ComeFromRead.foldlM_visit (h : v.ComeFromRead access) {files : List SourceFile}
    (hvisits : files.foldlM (Visits.visit access limits) v = some v') : v'.ComeFromRead access := by
  induction files generalizing v with
  | nil => exact Option.some.inj hvisits ▸ h
  | cons file files ih =>
    obtain ⟨v'', hvisit, hvisits⟩ := Option.bind_eq_some_iff.1 hvisits
    exact ih (h.visit hvisit) hvisits

/-- Visiting a file that cannot be read changes nothing. -/
theorem foldlM_visit_filter (hread : access.read file = .unreadable) (files : List SourceFile)
    (v : Visits) :
    (files.filter (· ≠ file)).foldlM (visit access limits) v =
      files.foldlM (visit access limits) v := by
  induction files generalizing v with
  | nil => rfl
  | cons file' files ih =>
    rw [List.foldlM_cons, List.filter_cons]
    split
    · rw [List.foldlM_cons]
      exact congrArg _ (funext ih)
    · rename_i hsame
      obtain rfl : file' = file := by simpa using hsame
      have hvisit : visit access limits v file' = some v := by
        rw [visit, hread, ite_self]
      rw [hvisit, ih]
      rfl

end Visits

namespace Scan

variable {access : FileAccess} {b : Bindings} {t : DeclType} {limits : ScanLimits}
  {folders : List DeclFolder} {file : SourceFile}

theorem run_start (access : FileAccess) (b : Bindings) (t : DeclType) (limits : ScanLimits)
    (folders : List DeclFolder) :
    Scan.run access b { defaultType := t, limits, folders } =
      ((folders.flatMap fun folder =>
        access.files folder.folder folder.extension limits.depthLimit).foldlM
          (Visits.visit access limits) {}).map (.ofVisits b t) :=
  run_eq_visits rfl

theorem run_without (hread : access.read file = .unreadable) :
    Scan.run (access.without file) b { defaultType := t, limits, folders } =
      Scan.run access b { defaultType := t, limits, folders } := by
  rw [run_start, run_start, ← Visits.foldlM_visit_filter hread, List.filter_flatMap]
  rfl

/-- A scan finds only files that are read to their end, and only blocks of such files. -/
theorem comesFromRead_run {found : Findings}
    (hrun : Scan.run access b { defaultType := t, limits, folders } = some found) :
    (∀ file ∈ found.files.toList, (access.tree? file).isSome) ∧
      (∀ t', ∀ block ∈ found.blocksOf t', ∃ file, block.file = some file ∧
        (access.tree? file).isSome) ∧
      ∀ p ∈ found.waiting, ∃ file, p.block.file = some file ∧ (access.tree? file).isSome := by
  rw [run_start] at hrun
  obtain ⟨v, hvisits, rfl⟩ := Option.map_eq_some_iff.1 hrun
  have hempty : ({} : Visits).ComeFromRead access := by
    refine ⟨fun file hfile => ?_, by simp⟩
    rw [FileSet.mem_toList_iff] at hfile
    simp at hfile
  have hread := hempty.foldlM_visit hvisits
  refine ⟨hread.files, fun t' block hblock => ?_, fun p hp => ?_⟩
  · rw [Findings.blocksOf_ofVisits] at hblock
    exact hread.blocks block (List.mem_of_mem_filter hblock)
  · rw [Findings.waiting_ofVisits] at hp
    obtain ⟨block, hblock, hwanting⟩ := List.mem_filterMap.1 hp
    rw [Findings.block_of_wanting? hwanting]
    exact hread.blocks block hblock

end Scan

namespace ByteStream

/-- A stream that fails from some byte on is parsed as all of its content, or its failure is told,
which is the case exactly if that byte is one of the content or the one right behind it. A file with
such a failing stream is left out of every scan: opening it only takes it from the queue, and what
is found is the same as if it had not been listed, without the file and without any block of it. -/
theorem FailsFrom.left_out {s : ByteStream} {content : List UInt8} {n : ℕ} {reason : String}
    (h : s.FailsFrom content n reason) :
    (SyntaxTree.readStream s =
      if n ≤ content.length then .error reason
      else .ok (SyntaxTree.read
        (String.ofList (Cursor.rest (ByteCursor.ofStream (.ofBytes content)))))) ∧
    (n ≤ content.length → ∀ (access : FileAccess) (file : SourceFile),
      access.openFile file = .stream s →
      (∀ (b : Bindings) (scan : Scan) (rest : List SourceFile), scan.current = none →
        scan.queue = file :: rest → scan.step access b = .running { scan with queue := rest }) ∧
      ∀ (b : Bindings) (t : DeclType) (limits : ScanLimits) (folders : List DeclFolder),
        let scan : Scan := { defaultType := t, limits, folders }
        scan.run access b = scan.run (access.without file) b ∧
        ∀ found, scan.run access b = some found →
          file ∉ found.files.toList ∧
          (∀ t', ∀ block ∈ found.blocksOf t', block.file ≠ some file) ∧
          ∀ p ∈ found.waiting, p.block.file ≠ some file) := by
  have hparsed := SyntaxTree.readStream_of_failsFrom h
  refine ⟨hparsed, fun hn access file hopen => ?_⟩
  rw [if_pos hn] at hparsed
  have hread : access.read file = .unreadable := by
    unfold FileAccess.read
    rw [hopen]
    dsimp only
    rw [hparsed]
  have htree : access.tree? file = none := by
    unfold FileAccess.tree?
    rw [hopen]
    dsimp only
    rw [hparsed]
    rfl
  have hother : ∀ file', (access.tree? file').isSome → file' ≠ file := by
    rintro file' hsome rfl
    simp [htree] at hsome
  refine ⟨fun b scan rest hcurrent hqueue => ?_, fun b t limits folders => ?_⟩
  · have hstep : scan.step access b = scan.openNext access file rest := by
      rw [Scan.step, hcurrent, hqueue]
    rw [hstep, Scan.openNext, hread]
    exact ite_self _
  · refine ⟨(Scan.run_without hread).symm, fun found hrun => ?_⟩
    obtain ⟨hfiles, hblocks, hwaiting⟩ := Scan.comesFromRead_run hrun
    refine ⟨fun hfile => hother file (hfiles file hfile) rfl, fun t' block hblock => ?_,
      fun p hp => ?_⟩
    · obtain ⟨file', hfile', hsome⟩ := hblocks t' block hblock
      rw [hfile']
      exact fun hsame => hother file' hsome (Option.some.inj hsame)
    · obtain ⟨file', hfile', hsome⟩ := hwaiting p hp
      rw [hfile']
      exact fun hsame => hother file' hsome (Option.some.inj hsame)

/-- A whole block comes before a character of two bytes. The stream fails inside the character, at
the look for a byte behind it, or not at all. -/
theorem FailsFrom.left_out_torn :
    let content : List UInt8 := [0x73, 0x20, 0x7b, 0x7d, 0x20, 0xc3, 0xa9]
    let failing := fun n => ByteStream.deliver content 4 true (some n) "disk on fire"
    let file : SourceFile := ⟨"m/torn.mtr", ⟨"/"⟩, "base", ⟨7, 0⟩⟩
    let other : SourceFile := ⟨"m/whole.mtr", ⟨"/"⟩, "base", ⟨7, 0⟩⟩
    let access : FileAccess :=
      { files _ _ _ := [file, other]
        openFile f := .stream (failing (if f = file then 6 else 8)) }
    let t : DeclType := ⟨"material"⟩
    let scan : Scan := { defaultType := t, limits := {}, folders := [⟨"m/", ".mtr", t⟩] }
    let opening : Scan := { scan with folders := [], queue := [file, other] }
    (∀ n, (failing n).FailsFrom content n "disk on fire") ∧
    SyntaxTree.readStream (failing 6) = .error "disk on fire" ∧
    SyntaxTree.readStream (failing 7) = .error "disk on fire" ∧
    SyntaxTree.readStream (failing 8) = .ok (SyntaxTree.read "s \x7b\x7d é") ∧
    access.openFile file = .stream (failing 6) ∧
    opening.step access {} = .running { opening with queue := [other] } ∧
    ∃ found, scan.run access {} = some found ∧ file ∉ found.files.toList ∧
      (∀ t', ∀ block ∈ found.blocksOf t', block.file ≠ some file) ∧
      (∀ p ∈ found.waiting, p.block.file ≠ some file) ∧
      (found.waiting.map fun p => (p.block.name, p.block.file)) = [("s", some other)] := by
  intro content failing file other access t scan opening
  have hfails : ∀ n, (failing n).FailsFrom content n "disk on fire" := fun n =>
    failsFrom_deliver content 4 true n "disk on fire"
  have hrest : Cursor.rest (ByteCursor.ofStream (.ofBytes content)) = "s \x7b\x7d é".toList := by
    decide +kernel
  have hopen : access.openFile file = .stream (failing 6) := rfl
  have hwaiting : (scan.run access {}).map (fun found =>
      found.waiting.map fun p => (p.block.name, p.block.file)) = some [("s", some other)] := by
    rw [Scan.run_start]
    decide +kernel
  obtain ⟨found, hrun, hfound⟩ := Option.map_eq_some_iff.1 hwaiting
  obtain ⟨hstep, hscan⟩ := (hfails 6).left_out.2 (by decide) access file hopen
  obtain ⟨hfile, hblocks, hwaiting⟩ := (hscan {} t {} scan.folders).2 found hrun
  refine ⟨hfails, (hfails 6).left_out.1, (hfails 7).left_out.1, ?_, hopen,
    hstep {} opening [other] rfl rfl, found, hrun, hfile, hblocks, hwaiting, hfound⟩
  rw [(hfails 8).left_out.1, if_neg (by decide), hrest, String.ofList_toList]

end ByteStream

end AssetDecl
