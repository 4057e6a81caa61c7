import AssetDecl.Catalogue.Basic

/-!
# Installing blocks

Blocks enter the store when a scan is completed and when a creator is bound that they waited for.
Both operations tell the types whose declarations changed.
-/

namespace AssetDecl

/-- Whether a block with an assigned type has this key. -/
def Findings.sees (f : Findings) (key : DeclKey) : Bool :=
  (f.blocksOf key.declType).any fun block => Text.foldCase block.name == key.name

namespace Catalogue

/-! ## Waiting blocks -/

/-- Blocks on their way into the store. -/
structure Installing where
  store : Store
  /-- Blocks that wait further. -/
  left : List WaitingBlock := []
  changed : TypeSet := ∅

namespace Installing

/-- Installs a block under a type, or leaves it waiting. -/
def put (bindings : Bindings) (t : DeclType) (i : Installing) (p : WaitingBlock) : Installing :=
  match i.store.install bindings t p.block p.origin with
  | some store => { i with store, changed := i.changed.insert t }
  | none => { i with left := i.left ++ [p] }

/-- Installs a waiting block if its need is met now. -/
def retry (bindings : Bindings) (i : Installing) (p : WaitingBlock) : Installing :=
  match bindings.meet p.need with
  | some t => i.put bindings t p
  | none => { i with left := i.left ++ [p] }

end Installing

/-- Tries every waiting block again. The types that changed are told. -/
def retryWaiting (cat : Catalogue) (changed : TypeSet) : Catalogue × TypeSet :=
  let i := cat.waiting.foldl (Installing.retry cat.bindings) { store := cat.store, changed }
  ({ cat with store := i.store, waiting := i.left }, i.changed)

/-! ## Types -/

/-- Binds a keyword to a creator and installs the blocks that waited for it. -/
def bindType (cat : Catalogue) (keyword : String) (c : Creator) :
    Except Failure (Catalogue × TypeSet) :=
  match cat.bindings.bindKeyword keyword c with
  | .error e => .error e
  | .ok bindings => .ok ({ cat with bindings }.retryWaiting ∅)

/-- Removes the binding of a keyword. Declarations stay. -/
def unbindType (cat : Catalogue) (keyword : String) (order : TableOrder String) :
    Except Failure Catalogue :=
  match cat.bindings.unbindKeyword keyword order with
  | .error e => .error e
  | .ok (_, bindings) => .ok { cat with bindings }

/-! ## Completed scans -/

/-- Whether a scan is the newest one of its type. -/
def isCurrent (cat : Catalogue) (s : StartedScan) : Bool :=
  match cat.tickets[s.scan.defaultType]? with
  | some ticket => ticket.generation == s.generation
  | none => false

/-- The effect of a completed scan of `t`: what vanished is removed, what was found is installed,
and every waiting block is tried again. -/
def installScan (cat : Catalogue) (t : DeclType) (previous : FileSet) (f : Findings) :
    Catalogue × TypeSet :=
  let seen := Findings.sees f
  let gone := cat.store.vanishedTypes t seen
  let i := f.byType.toList.foldl (fun i (declType, blocks) =>
      blocks.foldl (fun i block =>
        Installing.put cat.bindings declType i ⟨.of block.keyword t, block, t⟩) i)
    { store := cat.store.dropVanished t seen, changed := .ofList gone : Installing }
  let waiting := cat.waiting.filter (·.origin ≠ t) ++ i.left ++ f.waiting
  let visited : Visited := { files := f.files, diff := .between previous f.files }
  { cat with store := i.store, waiting, visited := cat.visited.insert t visited }.retryWaiting
    i.changed

/-- Installs what a scan found, unless it has been superseded. -/
def completeScan (cat : Catalogue) (s : StartedScan) (f : Findings) : Catalogue × TypeSet :=
  if cat.isCurrent s then cat.installScan s.scan.defaultType s.previous f else (cat, ∅)

end Catalogue

end AssetDecl
