import AssetDecl.Cli.Run

/-!
# The program

The files that a command may need are read into a tree. Then the command is run and what it says is
printed.
-/

namespace AssetDecl.Cli

/-- Whether a path in the directory that is really `parent` is a link to somewhere else. -/
def isLink (parent : Option String) (path : Path) (real : String) : Bool :=
  match parent, path.fileName with
  | some parent, some name => (Path.join ⟨parent⟩ ⟨name⟩).text ≠ real
  | _, _ => false

/-- Reads what lies at a path into a tree. A link to a directory that holds it is left out, as is
what cannot be read. `above` are the directories that hold the path, the nearest first. -/
partial def readInto (above : List String) (tree : FileTree) (path : Path) : IO FileTree := do
  try
    let real ← IO.FS.realPath path.text
    if ← real.isDir then
      if isLink above.head? path real.toString && above.contains real.toString then return tree
      let entries ← real.readDir
      entries.foldlM (fun tree entry =>
          readInto (real.toString :: above) tree (path.join ⟨entry.fileName⟩))
        (tree.makeDirectory path)
    else if ← real.pathExists then
      let bytes ← IO.FS.readBinFile real
      let ⟨seconds, nanoseconds⟩ := (← real.metadata).modified
      let modified := seconds * 1000 + (nanoseconds.toNat / 1000000 : Nat)
      return tree.write path ⟨bytes.toList, modified⟩
    else return tree
  catch _ => return tree

/-- Reads the configuration of a project and the folders that it names. -/
def readProject (tree : FileTree) (root : Path) : IO FileTree := do
  let tree ← (ProjectConfig.candidates.map root.join).foldlM (readInto []) tree
  match ProjectConfig.load tree root with
  | .error _ | .ok none => return tree
  | .ok (some config) =>
    let places := (config.searchRoots root).flatMap fun r =>
      config.folders.map fun f =>
        r.path.join ⟨(DeclFolder.normalized f.defaultType f.folder f.extension).folder⟩
    places.foldlM (readInto []) tree

/-- How the program is to be called. -/
def usage : String :=
  "Usage: decl [OPTIONS] [COMMAND]\n\n" ++
  "Commands:\n" ++
  "  list   List the declarations found in the configured folders\n" ++
  "  show   Print the source of a single declaration\n" ++
  "  check  Verify every configured declaration file\n" ++
  "  help   Print this message\n\n" ++
  "Options:\n" ++
  "  -p, --path <PATH>  Path to the project root directory\n" ++
  "  -v, --verbose      Enable verbose output\n" ++
  "      --no-color     Disable colored output\n" ++
  "  -h, --help         Print help\n" ++
  "  -V, --version      Print version\n"

/-- An error with its code and what to do about it. -/
def errorReport (e : Failure) : String :=
  e.code ++ "\n\n  x " ++ e.message ++ "\n" ++
    ((e.help.map fun help => "  help: " ++ help ++ "\n").getD "")

/-- Prints how a run has ended, and tells the exit code. -/
def Outcome.print : Outcome → IO UInt32
  | .printed output => do
    IO.print output.out
    IO.eprint output.err
    return output.code.toUInt32
  | .help => do
    IO.print usage
    return 0
  | .misused => do
    IO.eprint ("error: unexpected arguments\n\n" ++ usage)
    return 2
  | .failed error => do
    IO.eprint (errorReport error)
    return 2

end AssetDecl.Cli

open AssetDecl Cli in
def main (words : List String) : IO UInt32 := do
  let directory : Path := ⟨(← IO.currentDir).toString⟩
  let root := match Arguments.parse words with
    | .ok arguments => arguments.path.getD directory
    | .error _ => directory
  let tree ← readProject (.seenFrom directory) root
  let noColour := (← IO.getEnv "NO_COLOR").isSome
  (run { tree, directory, noColour } words).print
