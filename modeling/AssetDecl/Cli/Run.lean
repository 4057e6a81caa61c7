import AssetDecl.Cli.Arguments
import AssetDecl.Cli.Output

/-!
# The command line

A command loads the project, waits for its scans, and prints what it finds.
-/

namespace AssetDecl.Cli

/-- How a run of the program ends. -/
inductive Outcome where
  | printed (output : Output)
  | help
  /-- The arguments are not understood. -/
  | misused
  | failed (error : Failure)

/-- Where the program runs. -/
structure Surroundings where
  tree : FileTree
  /-- The project when no other is named. -/
  directory : Path
  /-- Whether colours are not wanted. -/
  noColour : Bool := false

/-- The catalogue of a project, once all of its scans have ended. -/
def openProject (tree : FileTree) (root : Path) : Except Failure Catalogue := do
  let config := (← ProjectConfig.load tree root).getD {}
  let (started, cat) ← Catalogue.ofConfig config
  let searchPath : SearchPath := ⟨config.searchRoots root⟩
  let (_, cat) := Catalogue.runScans (searchPath.access tree) cat started
  match cat.joinEvery .listed with
  | none => .ok cat
  | some (result, cat) => result.map fun _ => cat

/-- A failure that has no code. -/
def complaint (coloured : Bool) (reason : String) : Output where
  code := 2
  err := Style.red.paint coloured "error:" ++ " " ++ reason ++ "\n"

/-- What a command prints about a loaded project. -/
def Command.output (coloured : Bool) (tree : FileTree) (cat : Catalogue) : Command → Output
  | .list declType format =>
    let types := match declType with
      | some name => [⟨name⟩]
      | none => cat.heldTypes
    let listing := Listing.ofTypes cat types
    match format with
    | .text => { out := listing.text coloured }
    | .json => { out := listing.json }
  | .showOne declType name =>
    match (cat.find? ⟨declType⟩ name).bind cat.store.declaration? with
    | some d => showDeclaration coloured d
    | none => complaint coloured ("no " ++ declType ++ " declaration named `" ++ name ++ "`")
  | .check =>
    let read := fun file => (SearchPath.read tree file).map FileData.bytes
    match ProjectCheck.run cat read with
    | .ok checked => checked.output coloured
    | .error e => complaint coloured e.message

def versionText : String := "decl_cli 0.1.0\n"

/-- Runs the program with some arguments. -/
def run (s : Surroundings) (words : List String) : Outcome :=
  match Arguments.parse words with
  | .error .help => .help
  | .error .version => .printed { out := versionText }
  | .error .misused => .misused
  | .ok arguments =>
    let coloured := !(arguments.noColour || s.noColour)
    match arguments.command with
    | none =>
      .printed { code := 1, err := "No subcommand specified. Run `decl --help` for usage.\n" }
    | some command =>
      match openProject s.tree (arguments.path.getD s.directory) with
      | .error e => .failed e
      | .ok cat => .printed (command.output coloured s.tree cat)

end AssetDecl.Cli
