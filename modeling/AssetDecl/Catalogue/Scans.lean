import AssetDecl.Catalogue.Install

/-!
# Scans of a catalogue

A scan is started, runs on its own and ends: it is completed, or its worker panics. Whoever waits
for it joins the worker, and the first one to join a worker that panicked may hear of it.
-/

namespace AssetDecl

namespace Catalogue

/-! ## Starting -/

/-- Starts a scan of all folders of a default type, in place of the one before. -/
def launch (cat : Catalogue) (t : DeclType) : StartedScan × Catalogue :=
  let generation := cat.generation + 1
  let superseded := match cat.tickets[t]? with
    | some old => cat.superseded.filter ScanTicket.isRunning ++ [old]
    | none => cat.superseded
  ({ generation
     previous := (cat.visitedOf t).files
     scan :=
      { defaultType := t
        limits := cat.limits
        folders := cat.folders.filter (·.defaultType = t) } },
    { cat with generation, superseded, tickets := cat.tickets.insert t ⟨t, generation, .running⟩ })

/-- Adds a folder, unless it is there already, and scans its default type. -/
def addFolder (cat : Catalogue) (t : DeclType) (folder extension : String) :
    StartedScan × Catalogue :=
  let folder := DeclFolder.normalized t folder extension
  let folders := if cat.folders.contains folder then cat.folders else cat.folders ++ [folder]
  { cat with folders }.launch t

/-- The default types of all folders, in ascending order. -/
def defaultTypes (cat : Catalogue) : List DeclType :=
  DeclType.sorted (cat.folders.map DeclFolder.defaultType)

/-- Starts a scan of every default type. -/
def rescan (cat : Catalogue) : List StartedScan × Catalogue :=
  cat.defaultTypes.foldl (fun (started, cat) t =>
    let (scan, cat) := cat.launch t
    (started ++ [scan], cat)) ([], cat)

/-! ## Waiting -/

/-- Waits for the scan of a type, whose failure goes unheard. None while it runs. -/
def awaitType (cat : Catalogue) (t : DeclType) : Option Catalogue :=
  match cat.tickets[t]? with
  | none => some cat
  | some ticket =>
    match ticket.join? with
    | none => none
    | some _ => some { cat with tickets := cat.tickets.insert t ticket.joined }

/-- The catalogue after somebody has waited for one scan that has ended, current or superseded. -/
def joinScan (cat : Catalogue) (s : StartedScan) : Catalogue :=
  let join := fun (ticket : ScanTicket) =>
    if ticket.generation = s.generation then ticket.joined else ticket
  { cat with tickets := cat.tickets.map fun _ => join, superseded := cat.superseded.map join }

/-- The newest scans of all types, in some order of the types. -/
def currentScans (cat : Catalogue) (order : TableOrder DeclType) : List ScanTicket :=
  (order.arrange cat.tickets.keys).filterMap fun t => cat.tickets[t]?

/-- Waits for the newest scan of every type, and tells the first failure. None while one runs. -/
def joinCurrent (cat : Catalogue) (order : TableOrder DeclType) :
    Option (Except Failure Unit × Catalogue) :=
  (ScanTicket.joinAll (cat.currentScans order)).map fun result =>
    (result, { cat with tickets := cat.tickets.map fun _ ticket => ticket.joined })

/-- Waits for every scan, whose failures go unheard. -/
def awaitAll (cat : Catalogue) : Option Catalogue :=
  (cat.joinCurrent .listed).map Prod.snd

/-- Waits for every scan, superseded ones first, and tells the first failure. -/
def joinEvery (cat : Catalogue) (order : TableOrder DeclType) :
    Option (Except Failure Unit × Catalogue) :=
  (ScanTicket.joinAll (cat.superseded ++ cat.currentScans order)).map fun result =>
    (result,
      { cat with superseded := [], tickets := cat.tickets.map fun _ ticket => ticket.joined })

end Catalogue

end AssetDecl
