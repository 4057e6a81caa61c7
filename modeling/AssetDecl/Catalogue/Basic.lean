import AssetDecl.Scan
import AssetDecl.Signal
import AssetDecl.Store

/-!
# The catalogue

A catalogue owns the declarations of all its folders. Each default type is scanned by a worker of
its own, and the newest scan of a type supersedes the ones before. Blocks whose type has no creator
wait until one is bound.
-/

namespace AssetDecl

/-- Types in ascending order, each once. -/
abbrev TypeSet := Std.ExtTreeSet DeclType

/-- How far the worker of a scan has come. -/
inductive ScanWorker where
  | running
  /-- It has ended and nobody has asked how. -/
  | exited (panicked : Bool)
  | joined
  deriving DecidableEq, Repr

/-- A started scan and its worker. -/
structure ScanTicket where
  defaultType : DeclType
  generation : Nat
  worker : ScanWorker := .running
  deriving DecidableEq, Repr

namespace ScanTicket

def isRunning (ticket : ScanTicket) : Bool :=
  ticket.worker == .running

def joined (ticket : ScanTicket) : ScanTicket :=
  { ticket with worker := .joined }

/-- The ticket after the worker of a generation has ended. -/
def workerExited (generation : Nat) (panicked : Bool) (ticket : ScanTicket) : ScanTicket :=
  if ticket.generation = generation then { ticket with worker := .exited panicked } else ticket

/-- The result of joining the worker, none while it runs. Only the first one hears of a panic. -/
def join? (ticket : ScanTicket) : Option (Except Failure Unit) :=
  match ticket.worker with
  | .running => none
  | .exited true => some (.error (.panickedWorker ("decl-scan-" ++ ticket.defaultType.name)))
  | .exited false | .joined => some (.ok ())

/-- The first failure of joining some workers in order, none while one of them runs. -/
def joinAll : List ScanTicket → Option (Except Failure Unit)
  | [] => some (.ok ())
  | ticket :: rest =>
    match ticket.join?, joinAll rest with
    | some (.error e), some _ => some (.error e)
    | some (.ok _), some result => some result
    | _, _ => none

end ScanTicket

/-- What the last installed scan of a type visited. -/
structure Visited where
  files : FileSet := ∅
  diff : FileDiff := {}

/-- A callback: it reports its label, and the number of declarations of a type if asked to. -/
structure Watcher where
  label : String
  counts : Option DeclType := none
  deriving DecidableEq, Repr

structure Catalogue where
  limits : ScanLimits := {}
  bindings : Bindings := {}
  folders : List DeclFolder := []
  /-- Blocks that wait for a creator. -/
  waiting : List WaitingBlock := []
  store : Store := {}
  visited : Std.ExtTreeMap DeclType Visited := ∅
  watchers : Std.ExtTreeMap DeclType (Signal Watcher) := ∅
  /-- The newest scan of each default type. -/
  tickets : Std.ExtTreeMap DeclType ScanTicket := ∅
  /-- Superseded scans that may still be running. -/
  superseded : List ScanTicket := []
  generation : Nat := 0

/-- A scan that has been started, with the files its predecessor visited. -/
structure StartedScan where
  generation : Nat
  previous : FileSet
  scan : Scan

namespace Catalogue

def visitedOf (cat : Catalogue) (t : DeclType) : Visited :=
  cat.visited[t]?.getD {}

def signalOf (cat : Catalogue) (t : DeclType) : Signal Watcher :=
  cat.watchers[t]?.getD {}

/-! ## Declarations -/

/-- The declaration of a type and name, up to the case of ASCII letters. -/
def find? (cat : Catalogue) (t : DeclType) (name : String) : Option Handle :=
  cat.store.find? t name

/-- The declaration, made on demand if there is none and the type has a creator. -/
def findOrCreate (cat : Catalogue) (t : DeclType) (name : String) :
    Except Failure (Handle × Catalogue) :=
  match cat.store.find? t name with
  | some handle => .ok (handle, cat)
  | none =>
    match cat.bindings.typeCreator? t with
    | none => .error (.noCreator t.name)
    | some creator =>
      let (handle, store) :=
        cat.store.insertNew (.of t name) (creator.create name { name }) none
      .ok (handle, { cat with store })

/-- Removes a declaration, and tells whether it was there. -/
def remove (cat : Catalogue) (t : DeclType) (name : String) : Bool × Catalogue :=
  let (done, store) := cat.store.remove t name
  (done, { cat with store })

/-- The declarations of a type in the order of their folded names. -/
def handles (cat : Catalogue) (t : DeclType) : List Handle :=
  cat.store.handlesOf t

def count (cat : Catalogue) (t : DeclType) : Nat :=
  cat.store.count t

/-- The types that hold a declaration, in ascending order. -/
def heldTypes (cat : Catalogue) : List DeclType :=
  cat.store.types

/-- The files that the last installed scan of a default type visited. -/
def visitedFiles (cat : Catalogue) (t : DeclType) : List SourceFile :=
  (cat.visitedOf t).files.toList

/-- How the files of the last two installed scans of a default type differ. -/
def lastDiff (cat : Catalogue) (t : DeclType) : FileDiff :=
  (cat.visitedOf t).diff

/-- The catalogue as it is shown for debugging. -/
def debugText (cat : Catalogue) : String :=
  "DeclarationManager \x7b options: " ++ cat.limits.debugText ++ ", folders: [" ++
    String.intercalate ", " (cat.folders.map DeclFolder.debugText) ++ "], .. \x7d"

end Catalogue

end AssetDecl
