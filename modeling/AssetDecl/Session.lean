import AssetDecl.Catalogue.Run
import AssetDecl.Session.Step

/-!
# Sessions

A session uses a catalogue step by step on a project whose files change in between. Scans run to
their end in the step that starts them, one after the other; one scan may be held after it has read
a file while other requests are served.
-/

namespace AssetDecl

structure Session where
  catalogue : Catalogue := {}
  tree : FileTree := {}
  searchPath : SearchPath := ⟨[]⟩
  /-- Faults by file name. -/
  faults : Std.ExtTreeMap String Session.Fault := ∅
  /-- Kept declarations by label. -/
  handles : Std.ExtTreeMap String Handle := ∅
  /-- The subscription last made under each label. -/
  subscriptions : Std.ExtTreeMap String (DeclType × Nat) := ∅
  /-- What callbacks have reported and no step has answered yet. -/
  log : List String := []

namespace Session

/-! ## Files -/

/-- Opens a file with its fault. -/
def openFile (s : Session) (file : SourceFile) : Opened :=
  match s.faults[file.name]? with
  | some .closed => .failed "the file is closed"
  | some .deadly => .crashed
  | fault =>
    match SearchPath.read s.tree file with
    | .error e => .failed e.message
    | .ok data =>
      match fault with
      | some (.brokenAfter n) =>
        .stream (.deliver data.bytes 4096 false (some n) "the file is broken")
      | some .halting => .stream (.deliver data.bytes 4 true none "")
      | _ => .stream (.ofBytes data.bytes)

/-- Access to the files as they are now. -/
def access (s : Session) : FileAccess where
  files := s.searchPath.filesIn s.tree
  openFile := s.openFile

/-- Access to the files as they are now, where one of them has no fault. -/
def accessSparing (s : Session) (file : String) : FileAccess :=
  { s with faults := s.faults.erase file }.access

/-! ## Views -/

/-- Makers of the declarations of the session's own types sign with this. -/
def signature : String := "session"

/-- The number of a declaration among those signed by the session, in the order of creation. -/
def idOf (cat : Catalogue) (handle : Handle) : Option Nat :=
  let isOwn := fun (d : Declaration) => d.maker == signature
  match cat.store.declaration? handle with
  | none => none
  | some d =>
    if isOwn d then some ((cat.store.objects.toList.take (handle + 1)).countP isOwn) else none

def view (cat : Catalogue) (handle : Handle) : Option DeclView :=
  (cat.store.declaration? handle).map fun declaration => ⟨declaration, idOf cat handle⟩

/-- The declarations of a type as they are now. -/
def viewsOf (cat : Catalogue) (t : DeclType) : List DeclView :=
  (cat.handles t).filterMap (view cat)

def replyWith (cat : Catalogue) (handle : Option Handle) : Reply :=
  match handle.bind (view cat) with
  | some v => .declaration v
  | none => .nothing

def snapshot (cat : Catalogue) : Snapshot where
  declarations := cat.heldTypes.map fun t => (t, viewsOf cat t)
  waiting := cat.waiting

/-! ## Scans -/

/-- Notes what callbacks have reported. -/
def absorb (s : Session) : List String × Catalogue → Session
  | (reports, catalogue) => { s with catalogue, log := s.log ++ reports }

/-- Starts the scans of a request. -/
def startScans (s : Session) : ScanRequest → List StartedScan × Session
  | .folder t folder extension =>
    let (started, catalogue) := s.catalogue.addFolder t folder extension
    ([started], { s with catalogue })
  | .rescan =>
    let (started, catalogue) := s.catalogue.rescan
    (started, { s with catalogue })

/-- Turns from a scan that has ended to those after it, the first of which has waited for it. -/
def passOn (s : Session) (scan : StartedScan) (rest : List StartedScan) : Session :=
  if rest.isEmpty then s else { s with catalogue := s.catalogue.joinScan scan }

/-- Runs started scans one after the other. -/
def runScans (s : Session) : List StartedScan → Session
  | [] => s
  | scan :: rest =>
    ((s.absorb (Catalogue.runScan s.access s.catalogue scan)).passOn scan rest).runScans rest

/-! ## Requests -/

/-- Serves a request once the scan of a type has ended. -/
def onceScanned (s : Session) (t : DeclType) (serve : Session → Reply × Session) :
    Reply × Session :=
  match s.catalogue.awaitType t with
  | none => (.wouldBlock, s)
  | some catalogue => serve { s with catalogue }

/-- Serves a request once every scan has ended. -/
def onceIdle (s : Session) (serve : Session → Reply × Session) : Reply × Session :=
  match s.catalogue.awaitAll with
  | none => (.wouldBlock, s)
  | some catalogue => serve { s with catalogue }

/-- Keeps the handle of a declaration under a label. -/
def keep (s : Session) (label : Option String) (handle : Option Handle) : Session :=
  match label, handle with
  | some label, some handle => { s with handles := s.handles.insert label handle }
  | _, _ => s

/-- Visits the declaration of a handle: it is looked up again and removed if `removing`. -/
def visitOne (t : DeclType) (removing : Bool) (cat : Catalogue) (handle : Handle) :
    Option VisitNote × Catalogue :=
  match cat.store.declaration? handle with
  | none => (none, cat)
  | some d =>
    let found := (cat.find? t d.name).isSome
    let (removed, cat) := if removing then cat.remove t d.name else (false, cat)
    (some ⟨d.name, found, removed, cat.count t⟩, cat)

/-- Visits the declarations that a type has now. -/
def visitAll (t : DeclType) (removing : Bool) (cat : Catalogue) : List VisitNote × Catalogue :=
  (cat.handles t).foldl (fun (notes, cat) handle =>
    let (note, cat) := visitOne t removing cat handle
    (notes ++ note.toList, cat)) ([], cat)

def connect (s : Session) (t : DeclType) (watcher : Watcher) : Reply × Session :=
  let (id, catalogue) := s.catalogue.connect t watcher
  (.number (catalogue.signalOf t).size,
    { s with catalogue, subscriptions := s.subscriptions.insert watcher.label (t, id) })

def disconnect (s : Session) (label : String) : Reply × Session :=
  match s.subscriptions[label]? with
  | none => (.nothing, s)
  | some (t, id) =>
    let (done, catalogue) := s.catalogue.disconnect t id
    (.disconnected done (catalogue.signalOf t).size, { s with catalogue })

/-- Replaces the contents of a kept declaration. -/
def setContents (s : Session) (label contents : String) : Reply × Session :=
  match s.handles[label]?.bind fun handle =>
      (s.catalogue.store.declaration? handle).map (handle, ·) with
  | none => (.nothing, s)
  | some (handle, d) =>
    let store := s.catalogue.store.setBlock handle { d.block with contents }
    let catalogue := { s.catalogue with store }
    (replyWith catalogue (some handle), { s with catalogue })

def bindType (s : Session) (keyword : String) (t : DeclType) : Reply × Session :=
  match s.catalogue.bindType keyword (.signed t signature) with
  | .error e => (.failed e, s)
  | .ok (catalogue, changed) => (.done, s.absorb (catalogue.emit changed))

/-- Serves a request. Scans that it starts run to their end and are waited for, so that nobody hears
of their panics. -/
def serve (s : Session) : Request → Reply × Session
  | .writeFile path data => (.nothing, { s with tree := s.tree.write path data })
  | .deleteFile path =>
    (.truth (s.tree.hasEntry path), { s with tree := s.tree.remove path })
  | .setFault file fault =>
    (.nothing, { s with faults := s.faults.alter file fun _ => fault })
  | .bindType keyword t => s.bindType keyword t
  | .unbindType keyword =>
    match s.catalogue.unbindType keyword .listed with
    | .error e => (.failed e, s)
    | .ok catalogue => (.done, { s with catalogue })
  | .isBound keyword => (.truth (s.catalogue.bindings.isBound keyword), s)
  | .keywords => (.names s.catalogue.bindings.keywords, s)
  | .folders => (.folders s.catalogue.folders, s)
  | .limits => (.limits s.catalogue.limits, s)
  | .debugText => (.shown s.catalogue.debugText, s)
  | .scan request =>
    let (started, s) := s.startScans request
    let s := s.runScans started
    (.done, { s with catalogue := started.foldl Catalogue.joinScan s.catalogue })
  | .find t name label =>
    s.onceScanned t fun s =>
      let handle := s.catalogue.find? t name
      (replyWith s.catalogue handle, s.keep label handle)
  | .findOrCreate t name label =>
    s.onceScanned t fun s =>
      match s.catalogue.findOrCreate t name with
      | .error e => (.failed e, s)
      | .ok (handle, catalogue) =>
        (replyWith catalogue (some handle), { s with catalogue }.keep label (some handle))
  | .kept label => (replyWith s.catalogue s.handles[label]?, s)
  | .setContents label contents => s.setContents label contents
  | .remove t name =>
    s.onceScanned t fun s =>
      let (done, catalogue) := s.catalogue.remove t name
      (.truth done, { s with catalogue })
  | .declarations t => s.onceScanned t fun s => (.declarations (viewsOf s.catalogue t), s)
  | .count t => s.onceScanned t fun s => (.number (s.catalogue.count t), s)
  | .types => s.onceIdle fun s => (.names (s.catalogue.heldTypes.map DeclType.name), s)
  | .visit t removing =>
    s.onceScanned t fun s =>
      let (notes, catalogue) := visitAll t removing s.catalogue
      (.visits notes, { s with catalogue })
  | .visitedFiles t => s.onceScanned t fun s => (.files (s.catalogue.visitedFiles t), s)
  | .lastDiff t => s.onceScanned t fun s => (.diff (s.catalogue.lastDiff t), s)
  | .waiting => s.onceIdle fun s => (.waiting s.catalogue.waiting, s)
  | .connect t watcher => s.connect t watcher
  | .disconnect label => s.disconnect label
  | .wait =>
    match s.catalogue.joinCurrent .listed with
    | none => (.wouldBlock, s)
    | some (result, catalogue) => (.ofResult result, { s with catalogue })

/-! ## Steps -/

/-- Hands out what callbacks have reported. -/
def takeLog (s : Session) : List String × Session :=
  (s.log, { s with log := [] })

/-- Serves a request while a scan is held. -/
def serveAside (s : Session) (request : Request) : Aside × Session :=
  let ended := match request with
    | .scan _ => ScanEnd.unknown
    | _ => ScanEnd.noScan
  let (reply, s) := s.serve request
  let (fired, s) := s.takeLog
  (⟨reply, ended, fired⟩, s)

def serveAsides (s : Session) (requests : List Request) : List Aside × Session :=
  requests.foldl (fun (asides, s) request =>
    let (aside, s) := s.serveAside request
    (asides ++ [aside], s)) ([], s)

/-- Runs started scans, and stops the first one that reads `file` to serve other requests. That file
is read in spite of its fault. -/
def runHeld (file : String) (meanwhile : List Request) :
    Session → List StartedScan → List Aside × Session
  | s, [] => ([], s)
  | s, scan :: rest =>
    match scan.scan.runUntil (s.accessSparing file) s.catalogue.bindings (·.name == file) with
    | .running paused =>
      let (asides, s) := s.serveAsides meanwhile
      let found := paused.run s.access s.catalogue.bindings
      (asides, ((s.absorb (s.catalogue.endScan scan found)).passOn scan rest).runScans rest)
    | .finished found =>
      runHeld file meanwhile
        ((s.absorb (s.catalogue.endScan scan (some found))).passOn scan rest) rest
    | .crashed =>
      runHeld file meanwhile ((s.absorb (s.catalogue.endScan scan none)).passOn scan rest) rest

/-- The result of waiting for some scans, if they have been waited for. -/
def joining (s : Session) (joined : Option (Except Failure Unit × Catalogue)) :
    ScanEnd × Session :=
  match joined with
  | none => (.unknown, s)
  | some (result, catalogue) => (.joined result, { s with catalogue })

/-- What a step has led to. -/
def settle (s : Session) : (List String × Snapshot) × Session :=
  let (fired, s) := s.takeLog
  let catalogue := s.catalogue.awaitAll.getD s.catalogue
  ((fired, snapshot catalogue), { s with catalogue })

/-- Performs a step and tells what it has led to. -/
def perform (s : Session) : Step → Report × Session
  | .request request =>
    let (reply, s) := s.serve request
    let (outcome, s) := s.settle
    ({ reply, outcome := some outcome }, s)
  | .scan request mode =>
    let (started, s) := s.startScans request
    match mode with
    | .unawaited => ({ reply := .done, ended := .unknown }, s.runScans started)
    | .awaited =>
      let s := s.runScans started
      let (ended, s) :=
        s.joining (if started.length = 1 then s.catalogue.joinCurrent .listed else none)
      let (outcome, s) := s.settle
      ({ reply := .done, ended, outcome := some outcome }, s)
    | .held file meanwhile =>
      let (asides, s) := runHeld file meanwhile s started
      let (ended, s) := s.joining (s.catalogue.joinEvery .listed)
      let (outcome, s) := s.settle
      ({ reply := .done, ended, meanwhile := some asides, outcome := some outcome }, s)

/-- Waits for every scan that was started. -/
def conclude (s : Session) : Reply :=
  match s.catalogue.joinEvery .listed with
  | none => .wouldBlock
  | some (result, _) => .ofResult result

/-- Performs some steps: the state before them, what each answers, and the end. -/
def run (s : Session) (steps : List Step) : Snapshot × List Report × Reply :=
  let ((_, before), s) := s.settle
  let (reports, s) := steps.foldl (fun (reports, s) step =>
    let (report, s) := s.perform step
    (reports ++ [report], s)) (([] : List Report), s)
  (before, reports, s.conclude)

/-- A session on a configured project, once its first scans have ended. -/
def ofProject (tree : FileTree) (root : Path) : Except Failure Session := do
  let config := (← ProjectConfig.load tree root).getD {}
  let (started, catalogue) ← Catalogue.ofConfig config
  let s : Session := { catalogue, tree, searchPath := ⟨config.searchRoots root⟩ }
  let s := s.absorb (Catalogue.runScans s.access s.catalogue started)
  match s.catalogue.joinCurrent .listed with
  | none => .ok s
  | some (result, catalogue) => result.map fun _ => { s with catalogue }

end Session

end AssetDecl
