import AssetDecl.Path

/-!
# File trees

A tree of directories, files and symbolic links, with what a program can ask of it: reading a file,
asking what a path leads to, and walking a directory. Links are followed everywhere.
-/

namespace AssetDecl

/-- The names on the way down from the root to an entry. -/
abbrev Location := List String

structure FileData where
  bytes : List UInt8
  /-- Time of the last change in milliseconds, counted from 1970. -/
  modified : Int
  deriving DecidableEq, Repr

inductive TreeEntry where
  | directory
  | file (data : FileData)
  | link (target : Path)
  deriving DecidableEq, Repr

/-- Why a path leads to no readable file. -/
inductive FileError where
  | notFound
  | notADirectory
  | isADirectory
  | tooManyLinks
  | tooLong
  deriving DecidableEq, Repr

namespace FileError

def message : FileError → String
  | notFound => "No such file or directory (os error 2)"
  | notADirectory => "Not a directory (os error 20)"
  | isADirectory => "Is a directory (os error 21)"
  | tooManyLinks => "Too many levels of symbolic links (os error 40)"
  | tooLong => "File name too long (os error 36)"

end FileError

/-- The entries below the root, which is a directory itself. -/
structure FileTree where
  entries : Std.ExtTreeMap Location TreeEntry := ∅
  /-- Where relative paths start. -/
  workingDirectory : Location := []

namespace FileTree

def entry? (t : FileTree) (loc : Location) : Option TreeEntry :=
  if loc = [] then some .directory else t.entries[loc]?

/-! ## Looking up -/

/-- Goes down `rest` from the directory at `loc`; `follow` goes on where a link is met. The last
name need not be there. -/
def descend (t : FileTree) (follow : Location → List Component → Except FileError Location) :
    Location → List Component → Except FileError Location
  | loc, [] => .ok loc
  | loc, c :: rest =>
    match t.entry? loc with
    | some .directory =>
      match c with
      | .root => t.descend follow [] rest
      | .here => t.descend follow loc rest
      | .up => t.descend follow loc.dropLast rest
      | .name text =>
        match t.entry? (loc ++ [text]) with
        | none => if rest = [] then .ok (loc ++ [text]) else .error .notFound
        | some (.link target) => follow loc (target.steps ++ rest)
        | some _ => t.descend follow (loc ++ [text]) rest
    | some _ => .error .notADirectory
    | none => .error .notFound

/-- Goes down a list of components through at most `links` links. -/
def locateFrom (t : FileTree) : Nat → Location → List Component → Except FileError Location
  | 0 => t.descend fun _ _ => .error .tooManyLinks
  | links + 1 => t.descend (t.locateFrom links)

/-- Where a path starts. -/
def origin (t : FileTree) (p : Path) : Location :=
  if p.isAbsolute then [] else t.workingDirectory

/-- Where some of the components of a path lead, through at most forty links; the last name need not
be there. A path has less than 4096 bytes. -/
def follow (t : FileTree) (p : Path) (components : List Component) : Except FileError Location :=
  if p.text = "" then .error .notFound
  else if 4096 ≤ p.text.utf8ByteSize then .error .tooLong
  else t.locateFrom 40 (t.origin p) components

/-- Where a path leads; its last name need not be there. -/
def target (t : FileTree) (p : Path) : Except FileError Location :=
  t.follow p p.steps

/-- The place of the entry that a path leads to. -/
def locate (t : FileTree) (p : Path) : Except FileError Location :=
  match t.target p with
  | .error e => .error e
  | .ok loc => if (t.entry? loc).isSome then .ok loc else .error .notFound

def isDirectory (t : FileTree) (p : Path) : Bool :=
  match t.locate p with
  | .ok loc => t.entry? loc == some .directory
  | .error _ => false

def fileAt? (t : FileTree) (loc : Location) : Option FileData :=
  match t.entry? loc with
  | some (.file data) => some data
  | _ => none

/-- The file that a path leads to. -/
def readFile (t : FileTree) (p : Path) : Except FileError FileData :=
  match t.locate p with
  | .error e => .error e
  | .ok loc =>
    match t.entry? loc with
    | some (.file data) => .ok data
    | some .directory => .error .isADirectory
    | _ => .error .notFound

def isFile (t : FileTree) (p : Path) : Bool :=
  (t.readFile p).isOk

/-! ## Walking -/

/-- The names in a directory, in order. -/
def children (t : FileTree) (loc : Location) : List String :=
  t.entries.keys.filterMap fun key =>
    if key.dropLast = loc then key.getLast? else none

/-- A file met on a walk. -/
structure Visit where
  path : Path
  name : String
  data : FileData
  deriving DecidableEq, Repr

/-- Visits the files below the directory `path` at `loc`, at most `depth` levels down. `above` are
the locations of the directories on the way, this one included; a link to one of them is skipped, as
is what its path does not lead to. A file with too long a path is visited as an empty one. -/
def walkFrom (t : FileTree) : Nat → Path → Location → List Location → List Visit
  | 0, _, _, _ => []
  | depth + 1, path, loc, above =>
    (t.children loc).flatMap fun name =>
      let here := path.join ⟨name⟩
      match t.entry? (loc ++ [name]), t.locate here with
      | some (.file _), place =>
        [⟨here, name, (place.toOption.bind t.fileAt?).getD ⟨[], 0⟩⟩]
      | some .directory, .ok place => t.walkFrom depth here place (place :: above)
      | some (.link _), .ok place =>
        match t.entry? place with
        | some (.file data) => [⟨here, name, data⟩]
        | some .directory =>
          if above.contains place then [] else t.walkFrom depth here place (place :: above)
        | _ => []
      | _, _ => []

/-- The files below a directory, at most `depth` levels down. A path that never enters one directory
twice through links has no more steps than `enough`, so a greater depth changes nothing. -/
def walk (t : FileTree) (path : Path) (depth : Nat) : List Visit :=
  match t.locate path with
  | .error _ => []
  | .ok loc =>
    let enough := (t.entries.size + 2) * (t.entries.size + 2)
    t.walkFrom (min depth enough) path loc [loc]

/-- The place that a path itself names: a link is followed on the way there and not at the end. -/
def place (t : FileTree) (p : Path) : Except FileError Location :=
  match p.steps.getLast? with
  | some (.name text) =>
    match t.follow p p.steps.dropLast with
    | .error e => .error e
    | .ok above =>
      if t.entry? above = some .directory then .ok (above ++ [text]) else .error .notADirectory
  | _ => t.locate p

/-- Whether there is an entry at a path. -/
def hasEntry (t : FileTree) (p : Path) : Bool :=
  match t.place p with
  | .error _ => false
  | .ok loc => (t.entry? loc).isSome

/-! ## Changing -/

/-- Makes a directory where there is nothing. -/
def addDirectory (t : FileTree) (loc : Location) : FileTree :=
  if (t.entry? loc).isSome then t else { t with entries := t.entries.insert loc .directory }

/-- Makes the directories that are missing on the way down some components of a path, also those
that two dots leave again. -/
def makeWay (t : FileTree) (p : Path) (way : List Component) : FileTree :=
  (List.range way.length).foldl (fun t n =>
    match t.follow p (way.take (n + 1)) with
    | .error _ => t
    | .ok loc => t.addDirectory loc) t

/-- Makes a directory with all that is missing above it. -/
def makeDirectory (t : FileTree) (p : Path) : FileTree :=
  t.makeWay p p.components

/-- Writes a file, through links to where it really is or is to be. -/
def write (t : FileTree) (p : Path) (data : FileData) : FileTree :=
  let t := t.makeWay p p.components.dropLast
  match t.target p with
  | .error _ => t
  | .ok loc =>
    if t.entry? loc = some .directory then t
    else { t with entries := t.entries.insert loc (.file data) }

/-- Makes a symbolic link where there is nothing. -/
def link (t : FileTree) (p target : Path) : FileTree :=
  let t := t.makeWay p p.components.dropLast
  match t.place p with
  | .error _ => t
  | .ok loc =>
    if (t.entry? loc).isSome then t
    else { t with entries := t.entries.insert loc (.link target) }

/-- Removes the entry at a path with everything below it. -/
def remove (t : FileTree) (p : Path) : FileTree :=
  match t.place p with
  | .error _ => t
  | .ok loc => { t with entries := t.entries.filter fun key _ => !loc.isPrefixOf key }

/-- The empty tree seen from a directory. -/
def seenFrom (directory : Path) : FileTree :=
  let t := ({} : FileTree).makeDirectory directory
  { t with workingDirectory := (t.target directory).toOption.getD [] }

end FileTree

end AssetDecl
