import AssetDecl.Declaration

/-!
# Differences between visits

Which names differ between two visits of the same folders.
-/

namespace AssetDecl

structure FileDiff where
  appeared : List String := []
  vanished : List String := []
  altered : List String := []
  deriving DecidableEq, Repr

namespace FileDiff

/-- The files of a set by name; of several with one name the greatest stands for it. -/
def byName (files : FileSet) : Std.ExtTreeMap String SourceFile :=
  files.foldl (fun table file => table.insert file.name file) ∅

/-- Whether a file changed its contents or moved to another root. -/
def differs (file old : SourceFile) : Bool :=
  file.hasOtherContents old || !file.root.same old.root

/-- The names that are new, gone and changed, each in ascending order. -/
def between (previous current : FileSet) : FileDiff :=
  let before := byName previous
  let after := byName current
  { appeared := after.keys.filter fun name => !before.contains name
    vanished := before.keys.filter fun name => !after.contains name
    altered := after.toList.filterMap fun (name, file) =>
      match before[name]? with
      | some old => if differs file old then some name else none
      | none => none }

def isEmpty (d : FileDiff) : Bool :=
  d.appeared.isEmpty && d.vanished.isEmpty && d.altered.isEmpty

end FileDiff

end AssetDecl
