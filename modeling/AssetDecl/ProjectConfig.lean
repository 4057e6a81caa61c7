import AssetDecl.Bytes.Utf8
import AssetDecl.Failure
import AssetDecl.DeclType
import AssetDecl.Scan
import AssetDecl.SearchPath
import AssetDecl.Toml.Document

/-!
# Configuration

A project is configured by a TOML file with its search roots, limits, types and folders. What the
file leaves out has a default.
-/

namespace AssetDecl

/-- One folder to add. -/
structure FolderEntry where
  folder : String
  extension : String
  defaultType : DeclType
  deriving DecidableEq, Repr

structure ProjectConfig where
  /-- Search roots, the most important first. -/
  roots : List Path := [⟨"."⟩]
  limits : ScanLimits := {}
  /-- The type of each keyword, in ascending order of keywords. -/
  types : List (String × DeclType) := []
  folders : List FolderEntry := []
  deriving DecidableEq, Repr

namespace ProjectConfig

/-! ## Reading -/

/-- A value under a key, read as `read?` says; the default when the key is missing. -/
def entry? {α : Type} (entries : List (String × Toml.Value)) (key : String) (default : α)
    (read? : Toml.Value → Option α) : Option α :=
  match entries.lookup key with
  | none => some default
  | some v => read? v

/-- The name under which a date counts as a table of one entry. -/
def dateKey : String := "$__toml_private_datetime"

/-- The entries of a table; a date is one as well. -/
def tableEntries? : Toml.Value → Option (List (String × Toml.Value))
  | .table entries => some entries
  | .datetime d => some [(dateKey, .string d.text)]
  | _ => none

/-- Keywords with their types, in ascending order. -/
def types? (v : Toml.Value) : Option (List (String × DeclType)) := do
  let entries ← tableEntries? v
  let pairs ← entries.mapM fun (keyword, v) => do
    let name ← v.asString
    some (keyword, DeclType.mk name)
  some (Std.ExtTreeMap.ofList pairs).toList

def roots? (v : Toml.Value) : Option (List Path) := do
  (← v.asArray).mapM fun v => v.asString.map Path.mk

/-- Whether the values under keys without a meaning can be looked at. -/
def othersReadable (keys : List String) (entries : List (String × Toml.Value)) : Bool :=
  entries.all fun (key, v) => keys.contains key || v.isReadable

/-- A folder is a table with three texts, or an array that starts with them, behind which nothing is
looked at. -/
def folder? : Toml.Value → Option FolderEntry
  | .table entries => do
    guard (othersReadable ["folder", "extension", "default_type"] entries)
    let folder ← (← entries.lookup "folder").asString
    let extension ← (← entries.lookup "extension").asString
    let defaultType ← (← entries.lookup "default_type").asString
    some ⟨folder, extension, ⟨defaultType⟩⟩
  | .array (folder :: extension :: defaultType :: _) => do
    some ⟨← folder.asString, ← extension.asString, ⟨← defaultType.asString⟩⟩
  | _ => none

def folders? (v : Toml.Value) : Option (List FolderEntry) := do
  (← v.asArray).mapM folder?

/-- The configuration that the entries of a document give. Unknown keys count for nothing, but what
they hold must be readable. -/
def ofEntries? (entries : List (String × Toml.Value)) : Option ProjectConfig := do
  guard (othersReadable ["roots", "max_depth", "max_file_size", "types", "folders"] entries)
  let roots ← entry? entries "roots" [⟨"."⟩] roots?
  let depthLimit ← entry? entries "max_depth" 99 Toml.Value.asNat
  let sizeLimit ← entry? entries "max_file_size" 10485760 Toml.Value.asNat
  let types ← entry? entries "types" [] types?
  let folders ← entry? entries "folders" [] folders?
  some { roots, limits := { depthLimit, sizeLimit }, types, folders }

def parse (text : String) : Except Failure ProjectConfig :=
  match (Toml.parse? text).bind ofEntries? with
  | some config => .ok config
  | none => .error (.badConfig "not a valid configuration")

/-! ## Finding the file -/

/-- Where the file may be, the most important place first. -/
def candidates : List Path :=
  [⟨"decl.toml"⟩, ⟨".decl.toml"⟩, ⟨".config/decl.toml"⟩]

/-- The configuration file of a project. -/
def locate (tree : FileTree) (root : Path) : Option Path :=
  (candidates.map root.join).find? tree.isFile

/-- Loads the configuration of a project, none when it has no file for it. -/
def load (tree : FileTree) (root : Path) : Except Failure (Option ProjectConfig) :=
  match locate tree root with
  | none => .ok none
  | some path =>
    match tree.readFile path with
    | .error e => .error (.unreadable e.message)
    | .ok data =>
      match Utf8.decode? data.bytes with
      | none => .error (.unreadable "stream did not contain valid UTF-8")
      | some text => (parse text).map some

/-! ## Using it -/

/-- Search roots as seen from the project. -/
def searchRoots (config : ProjectConfig) (root : Path) : List SearchRoot :=
  config.roots.map fun path =>
    if path.isAbsolute then .ofPath path
    else if path.same ⟨"."⟩ then .ofPath root
    else .ofPath (root.join path)

/-- Whether two configurations mean the same; paths count by their components. -/
def same (a b : ProjectConfig) : Bool :=
  a.roots.map Path.components == b.roots.map Path.components && a.limits == b.limits &&
    a.types == b.types && a.folders == b.folders

end ProjectConfig

end AssetDecl
