import AssetDecl.FileTree
import AssetDecl.FileAccess
import AssetDecl.Text.Letters

/-!
# The search path

Declaration files are looked for below an ordered list of directories. When two of them hold a file
of one name, the earlier one wins.
-/

namespace AssetDecl

structure SearchRoot where
  path : Path
  label : String
  deriving DecidableEq, Repr

/-- A root labelled with the last name of its path. -/
def SearchRoot.ofPath (path : Path) : SearchRoot :=
  ⟨path, path.fileName.getD ""⟩

structure SearchPath where
  roots : List SearchRoot
  deriving DecidableEq, Repr

namespace SearchPath

/-- Whether a file name is longer than the extension and ends in it, up to the case of ASCII
letters. Every name ends in the empty extension. -/
def matchesExtension (name extension : String) : Bool :=
  extension = "" ||
    ((Text.foldCase extension).toList.isSuffixOf (Text.foldCase name).toList &&
      extension.length < name.length)

/-- The path of a visit seen from the root, with forward slashes. -/
def nameBelow (root path : Path) : String :=
  let rest := (path.stripPrefix root).getD path
  String.ofList (rest.text.toList.map fun c => if c = '\\' then '/' else c)

/-- The record of a visited file. -/
def fileOf (root : SearchRoot) (visit : FileTree.Visit) : SourceFile where
  name := nameBelow root.path visit.path
  root := root.path
  label := root.label
  fingerprint := ⟨visit.data.bytes.length, visit.data.modified.toNat⟩

/-- The files with the extension among the visits below each root, the earliest root first. -/
def candidates (roots : List SearchRoot) (visits : SearchRoot → List FileTree.Visit)
    (extension : String) : List SourceFile :=
  roots.flatMap fun root =>
    ((visits root).filter fun visit => matchesExtension visit.name extension).map (fileOf root)

/-- Of the candidates with one name the first, in the order of names. -/
def select (candidates : List SourceFile) : List SourceFile :=
  (candidates.foldl (fun table file => table.insertIfNew file.name file)
    (∅ : Std.ExtTreeMap String SourceFile)).values

/-- What a walk below a folder of a root visits. A dash alone stands for the standard input, which
holds no files. -/
def visitsIn (tree : FileTree) (folder : String) (depth : Nat) (root : SearchRoot) :
    List FileTree.Visit :=
  let dir := root.path.join ⟨folder⟩
  if tree.isDirectory dir && !dir.same ⟨"-"⟩ then tree.walk dir depth else []

/-- The files of a folder in a tree. -/
def filesIn (d : SearchPath) (tree : FileTree) (folder extension : String) (depth : Nat) :
    List SourceFile :=
  select (candidates d.roots (visitsIn tree folder depth) extension)

/-- What a declaration file holds in a tree. -/
def read (tree : FileTree) (file : SourceFile) : Except FileError FileData :=
  tree.readFile file.path

/-- What opening a file of a tree gives. -/
def openIn (tree : FileTree) (file : SourceFile) : Opened :=
  match read tree file with
  | .ok data => .stream (.ofBytes data.bytes)
  | .error e => .failed e.message

/-- Access to a tree that does not change. -/
def access (d : SearchPath) (tree : FileTree) : FileAccess where
  files := d.filesIn tree
  openFile := openIn tree

end SearchPath

end AssetDecl
