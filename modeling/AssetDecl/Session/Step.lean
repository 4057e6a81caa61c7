import AssetDecl.FileTree
import AssetDecl.Catalogue.Basic

/-!
# Steps of a session

What can be done to a catalogue and to the files of its project, and what each step answers.
-/

namespace AssetDecl

namespace Session

/-! ## Requests -/

/-- What goes wrong when a file is opened or read. -/
inductive Fault where
  /-- It cannot be opened. -/
  | closed
  /-- Opening it makes the scan panic. -/
  | deadly
  /-- Reading fails after so many bytes. -/
  | brokenAfter (bytes : Nat)
  /-- Reading is interrupted every four bytes. -/
  | halting
  deriving DecidableEq, Repr

/-- Which scans a step starts. -/
inductive ScanRequest where
  | folder (declType : DeclType) (folder extension : String)
  | rescan
  deriving DecidableEq, Repr

inductive Request where
  | writeFile (path : Path) (data : FileData)
  | deleteFile (path : Path)
  /-- A fault of every file with a name, or none any more. -/
  | setFault (file : String) (fault : Option Fault)
  | bindType (keyword : String) (declType : DeclType)
  | unbindType (keyword : String)
  | isBound (keyword : String)
  | keywords
  | folders
  | limits
  | debugText
  | scan (request : ScanRequest)
  /-- A declaration, with a label to keep its handle under. -/
  | find (declType : DeclType) (name : String) (keep : Option String)
  | findOrCreate (declType : DeclType) (name : String) (keep : Option String)
  | kept (label : String)
  /-- Replaces the contents of a kept declaration. -/
  | setContents (label contents : String)
  | remove (declType : DeclType) (name : String)
  | declarations (declType : DeclType)
  | count (declType : DeclType)
  | types
  /-- Visits the declarations of a type, and removes each if `removing`. -/
  | visit (declType : DeclType) (removing : Bool)
  | visitedFiles (declType : DeclType)
  | lastDiff (declType : DeclType)
  | waiting
  | connect (declType : DeclType) (watcher : Watcher)
  | disconnect (label : String)
  | wait

/-- How a step deals with the scans it starts. -/
inductive ScanMode where
  | awaited
  /-- Left to themselves. -/
  | unawaited
  /-- Stopped once one of them has read a file, while other requests are served. -/
  | held (file : String) (meanwhile : List Request)

inductive Step where
  | request (r : Request)
  | scan (r : ScanRequest) (mode : ScanMode)

/-! ## Answers -/

/-- A declaration as it is now. -/
structure DeclView where
  declaration : Declaration
  /-- Its number among those of the session's own types. -/
  id : Option Nat
  deriving DecidableEq, Repr

/-- What a visitor finds out about one declaration. -/
structure VisitNote where
  name : String
  found : Bool
  removed : Bool
  /-- The number of declarations afterwards. -/
  count : Nat
  deriving DecidableEq, Repr

inductive Reply where
  | done
  | failed (error : Failure)
  /-- The request would wait for a scan that is held. -/
  | wouldBlock
  | nothing
  | truth (b : Bool)
  | number (n : Nat)
  | shown (text : String)
  | names (names : List String)
  | folders (folders : List DeclFolder)
  | limits (limits : ScanLimits)
  | declaration (view : DeclView)
  | declarations (views : List DeclView)
  | visits (notes : List VisitNote)
  | files (files : List SourceFile)
  | diff (diff : FileDiff)
  | waiting (blocks : List WaitingBlock)
  /-- Whether a subscription has ended, and how many are left. -/
  | disconnected (done : Bool) (left : Nat)

/-- The reply to a result without a value. -/
def Reply.ofResult : Except Failure Unit → Reply
  | .ok _ => .done
  | .error e => .failed e

/-- All declarations and all blocks without a creator. -/
structure Snapshot where
  declarations : List (DeclType × List DeclView)
  waiting : List WaitingBlock

/-- What is known of the end of the scans that a step has started. -/
inductive ScanEnd where
  | noScan
  | unknown
  | joined (result : Except Failure Unit)

/-- The answer to a request that was served while a scan was held. -/
structure Aside where
  reply : Reply
  ended : ScanEnd
  /-- What callbacks reported. -/
  fired : List String

/-- The answer to a step. -/
structure Report where
  reply : Reply
  ended : ScanEnd := .noScan
  /-- The requests served while the scan was held; none when it was not to be held. -/
  meanwhile : Option (List Aside) := none
  /-- What callbacks reported and the state afterwards; none when nothing was waited for. -/
  outcome : Option (List String × Snapshot) := none

end Session

end AssetDecl
