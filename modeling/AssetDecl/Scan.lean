import AssetDecl.FileDiff
import AssetDecl.DeclFolder
import AssetDecl.Bindings
import AssetDecl.FileAccess
import AssetDecl.SyntaxTree.Parse

/-!
# Scans

A scan reads every file of the folders that have one default type, folder by folder, and sorts the
named blocks by the type assigned to them. It moves one step at a time: it lists a folder, opens a
file, or records the blocks of the file it has read, so that the bindings and the files may change
between two steps.
-/

namespace AssetDecl

/-- Limits of every scan. -/
structure ScanLimits where
  depthLimit : Nat := 99
  /-- Larger files are skipped. -/
  sizeLimit : Nat := 10485760
  deriving DecidableEq, Repr

/-- The limits as they are shown for debugging. -/
def ScanLimits.debugText (o : ScanLimits) : String :=
  "ScanOptions \x7b max_depth: " ++ toString o.depthLimit ++ ", max_file_size: " ++
    toString o.sizeLimit ++ " \x7d"

/-- A block whose type has no creator. -/
structure WaitingBlock where
  need : Need
  block : BlockSource
  /-- Default type of the scan that found it. -/
  origin : DeclType
  deriving DecidableEq, Repr

/-! ## What a scan finds -/

structure Findings where
  /-- Blocks by the type assigned to them, in the order of the files. -/
  byType : Std.ExtTreeMap DeclType (List BlockSource) := ∅
  waiting : List WaitingBlock := []
  files : FileSet := ∅

namespace Findings

/-- The blocks of a type. -/
def blocksOf (f : Findings) (t : DeclType) : List BlockSource :=
  f.byType[t]?.getD []

/-- Adds a block behind those of its type, or behind those that wait. -/
def addBlock (bindings : Bindings) (defaultType : DeclType) (f : Findings) (block : BlockSource) :
    Findings :=
  match bindings.assign block.keyword defaultType with
  | .assigned t => { f with byType := f.byType.insert t (f.blocksOf t ++ [block]) }
  | .wanting need => { f with waiting := f.waiting ++ [⟨need, block, defaultType⟩] }

/-- Adds the blocks of a file and the file. -/
def addFile (bindings : Bindings) (defaultType : DeclType) (f : Findings)
    (file : SourceFile) (blocks : List BlockSource) : Findings :=
  let f := blocks.foldl (addBlock bindings defaultType) f
  { f with files := f.files.insert file }

end Findings

/-! ## Reading a file -/

/-- What reading a file gives. -/
inductive Reading where
  | blocks (blocks : List BlockSource)
  /-- It could not be opened, or not be read to its end. -/
  | unreadable
  | crashed
  deriving DecidableEq, Repr

/-- The named blocks of a parsed file. -/
def SyntaxTree.capture (tree : SyntaxTree) (file : SourceFile) : List BlockSource :=
  (tree.blocks.filter fun block => block.name.isSome).map (·.capture (some file))

/-- Opens, reads and parses a file. -/
def FileAccess.read (access : FileAccess) (file : SourceFile) : Reading :=
  match access.openFile file with
  | .crashed => .crashed
  | .failed _ => .unreadable
  | .stream stream =>
    match SyntaxTree.readStream stream with
    | .error _ => .unreadable
    | .ok (tree, _) => .blocks (tree.capture file)

/-! ## Steps -/

/-- A scan under way. -/
structure Scan where
  defaultType : DeclType
  limits : ScanLimits
  /-- Folders not listed yet. -/
  folders : List DeclFolder
  /-- Files of the current folder not opened yet. -/
  queue : List SourceFile := []
  /-- A file that is read and not recorded yet, with its blocks. -/
  current : Option (SourceFile × List BlockSource) := none
  found : Findings := {}

inductive Progress where
  | running (scan : Scan)
  | finished (found : Findings)
  /-- The scan died and produces nothing. -/
  | crashed

namespace Scan

/-- Whether a file of the queue is opened: it is not recorded yet and not too large. -/
def opens (s : Scan) (file : SourceFile) : Bool :=
  !s.found.files.contains file && file.fingerprint.size ≤ s.limits.sizeLimit

/-- Opens the first file of the queue and reads it. A file that cannot be read is left out. -/
def openNext (access : FileAccess) (s : Scan) (file : SourceFile)
    (rest : List SourceFile) : Progress :=
  let s := { s with queue := rest }
  if s.opens file then
    match access.read file with
    | .crashed => .crashed
    | .unreadable => .running s
    | .blocks blocks => .running { s with current := some (file, blocks) }
  else .running s

/-- One step: record the file that was read, else open the next file, else list the next folder. -/
def step (access : FileAccess) (bindings : Bindings) (s : Scan) : Progress :=
  match s.current, s.queue, s.folders with
  | some (file, blocks), _, _ =>
    .running { s with
      current := none
      found := s.found.addFile bindings s.defaultType file blocks }
  | none, file :: rest, _ => s.openNext access file rest
  | none, [], folder :: others =>
    .running { s with
      folders := others
      queue := access.files folder.folder folder.extension s.limits.depthLimit }
  | none, [], [] => .finished s.found

/-- Steps left before the next folder is listed, at most. -/
def pending (s : Scan) : Nat :=
  2 * s.queue.length + s.current.toList.length

theorem pending_step_lt {access : FileAccess} {bindings : Bindings} {s s' : Scan}
    (h : s.step access bindings = .running s') :
    s'.folders.length < s.folders.length ∨
      s'.folders.length = s.folders.length ∧ s'.pending < s.pending := by
  obtain ⟨defaultType, limits, folders, queue, current, found⟩ := s
  unfold step at h
  obtain _ | ⟨file, blocks⟩ := current
  · obtain _ | ⟨file, rest⟩ := queue
    · obtain _ | ⟨folder, others⟩ := folders
      · simp at h
      · simp only [Progress.running.injEq] at h
        subst h
        simp
    · simp only [openNext] at h
      right
      split at h
      · split at h
        · simp at h
        · simp only [Progress.running.injEq] at h
          subst h
          simp [pending]
        · simp only [Progress.running.injEq] at h
          subst h
          simp [pending]
          omega
      · simp only [Progress.running.injEq] at h
        subst h
        simp [pending]
  · simp only [Progress.running.injEq] at h
    subst h
    simp [pending]

/-- Steps until the scan ends, or stops with a file read that `stop` holds of. -/
def runUntil (access : FileAccess) (bindings : Bindings) (stop : SourceFile → Bool)
    (s : Scan) : Progress :=
  match h : s.step access bindings with
  | .running s' =>
    have := pending_step_lt h
    if (s'.current.map fun c => stop c.1).getD false then .running s'
    else s'.runUntil access bindings stop
  | .finished found => .finished found
  | .crashed => .crashed
termination_by (s.folders.length, s.pending)
decreasing_by
  simp only [Prod.lex_def]
  omega

/-- What a scan finds while nothing changes; none when it dies. -/
def run (access : FileAccess) (bindings : Bindings) (s : Scan) : Option Findings :=
  match s.runUntil access bindings fun _ => false with
  | .finished found => some found
  | _ => none

end Scan

end AssetDecl
