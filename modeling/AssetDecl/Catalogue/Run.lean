import AssetDecl.ProjectConfig
import AssetDecl.Catalogue.Scans

/-!
# Running a catalogue

Callbacks are told of reloads by whoever did the work, with all of its effect in place. The worker
of a scan installs what it found, tells the callbacks and ends.
-/

namespace AssetDecl

namespace Catalogue

/-! ## Signals -/

/-- Subscribes to reloads of a type. -/
def connect (cat : Catalogue) (t : DeclType) (watcher : Watcher) : Nat × Catalogue :=
  let (id, signal) := (cat.signalOf t).connect watcher
  (id, { cat with watchers := cat.watchers.insert t signal })

def disconnect (cat : Catalogue) (t : DeclType) (id : Nat) : Bool × Catalogue :=
  let (done, signal) := (cat.signalOf t).disconnect id
  (done, { cat with watchers := cat.watchers.insert t signal })

/-- Runs a callback. One that counts declarations waits for their scan, unless the scan itself runs
the callback. -/
def report (cat : Catalogue) (w : Watcher) : String × Catalogue :=
  match w.counts with
  | none => (w.label, cat)
  | some t =>
    let cat := (cat.awaitType t).getD cat
    (w.label ++ "=" ++ toString (cat.count t), cat)

/-- Runs some callbacks in turn, and collects what they report. -/
def reportAll (cat : Catalogue) (watchers : List Watcher) : List String × Catalogue :=
  watchers.foldl (fun (reports, cat) watcher =>
    let (report, cat) := cat.report watcher
    (reports ++ [report], cat)) ([], cat)

/-- Runs the callbacks of the types that changed, and collects what they report. Types without a
signal are left out from the start. The callbacks of a type are those connected when its turn
comes. -/
def emit (cat : Catalogue) (changed : TypeSet) : List String × Catalogue :=
  (changed.toList.filter cat.watchers.contains).foldl (fun (reports, cat) t =>
    let (more, cat) := cat.reportAll (cat.signalOf t).callbacks
    (reports ++ more, cat)) ([], cat)

/-! ## Workers -/

/-- Notes that the worker of a scan has ended. -/
def workerExited (cat : Catalogue) (s : StartedScan) (panicked : Bool) : Catalogue :=
  { cat with
    tickets := cat.tickets.map fun _ ticket => ticket.workerExited s.generation panicked
    superseded := cat.superseded.map (ScanTicket.workerExited s.generation panicked) }

/-- The end of a scan: what it found is installed and reported, and if it died its worker has
panicked. -/
def endScan (cat : Catalogue) (s : StartedScan) (found : Option Findings) :
    List String × Catalogue :=
  match found with
  | none => ([], cat.workerExited s true)
  | some found =>
    let (cat, changed) := cat.completeScan s found
    let (reports, cat) := cat.emit changed
    (reports, cat.workerExited s false)

/-- Runs a scan to its end while nothing else happens. -/
def runScan (access : FileAccess) (cat : Catalogue) (s : StartedScan) : List String × Catalogue :=
  cat.endScan s (s.scan.run access cat.bindings)

/-- Runs some scans one after the other. -/
def runScans (access : FileAccess) (cat : Catalogue) (scans : List StartedScan) :
    List String × Catalogue :=
  scans.foldl (fun (reports, cat) s =>
    let (more, cat) := runScan access cat s
    (reports ++ more, cat)) ([], cat)

/-! ## Configured catalogues -/

/-- Binds each keyword to a plain creator, in order. -/
def bindPlain (cat : Catalogue) (types : List (String × DeclType)) : Except Failure Catalogue :=
  types.foldlM (fun cat (keyword, t) => (cat.bindType keyword (.plain t)).map Prod.fst) cat

/-- Adds some folders in order, each with its scan. -/
def addFolders (cat : Catalogue) (folders : List FolderEntry) : List StartedScan × Catalogue :=
  folders.foldl (fun (started, cat) f =>
    let (s, cat) := cat.addFolder f.defaultType f.folder f.extension
    (started ++ [s], cat)) ([], cat)

/-- The catalogue of a configuration, with the scans it has started. Types come before folders, so
that the scans can assign a type to every block. -/
def ofConfig (config : ProjectConfig) : Except Failure (List StartedScan × Catalogue) :=
  let cat : Catalogue := { limits := config.limits }
  (cat.bindPlain config.types).map fun cat => cat.addFolders config.folders

end Catalogue

end AssetDecl
