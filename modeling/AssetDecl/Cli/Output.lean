import AssetDecl.Cli.Check
import AssetDecl.Text.JsonString

/-!
# Output

What the commands print, with colours where they are wanted.
-/

namespace AssetDecl.Cli

/-! ## Colours -/

inductive Style where
  | bold
  | red
  | green
  | yellow
  deriving DecidableEq, Repr

namespace Style

/-- The codes that switch a style on and off. -/
def codes : Style → String × String
  | bold => ("1", "0")
  | red => ("31", "39")
  | green => ("32", "39")
  | yellow => ("33", "39")

/-- Wraps a text in a style. -/
def paint (coloured : Bool) (style : Style) (text : String) : String :=
  if coloured then
    "\x1b[" ++ style.codes.1 ++ "m" ++ text ++ "\x1b[" ++ style.codes.2 ++ "m"
  else text

end Style

/-- What a command leaves behind. -/
structure Output where
  code : Nat := 0
  out : String := ""
  err : String := ""
  deriving DecidableEq, Repr

/-! ## Lists -/

/-- One line of a list. -/
structure ListRow where
  declType : String
  name : String
  /-- The file of the current source; none for a declaration made on demand. -/
  file : Option String
  label : String
  deriving DecidableEq, Repr

structure Listing where
  entries : List ListRow
  unrecognised : Nat
  deriving DecidableEq, Repr

namespace Listing

/-- The declarations of some types, each type in the order of names. -/
def ofTypes (cat : Catalogue) (types : List DeclType) : Listing where
  entries := types.flatMap fun t => (cat.store.declarationsOf t).map fun d =>
    ⟨t.name, d.name, d.block.file.map SourceFile.name, d.block.label⟩
  unrecognised := cat.waiting.length

def footer (l : Listing) : String :=
  "\n" ++ toString l.entries.length ++ " declaration(s), " ++ toString l.unrecognised ++
    " unrecognised block(s)\n"

/-- Entries under headings for their types, which are parted by blank lines. -/
def entryLines (coloured : Bool) (previous : Option String) : List ListRow → String
  | [] => ""
  | e :: rest =>
    let heading :=
      if previous = some e.declType then ""
      else (if previous.isSome then "\n" else "") ++
        Style.bold.paint coloured (e.declType ++ ":") ++ "\n"
    heading ++ "  " ++ e.name ++ " " ++ e.file.getD "<generated>" ++ "\n" ++
      entryLines coloured (some e.declType) rest

def text (coloured : Bool) (l : Listing) : String :=
  (if l.entries.isEmpty then "No declarations found.\n"
    else entryLines coloured none l.entries) ++ l.footer

def jsonEntry (e : ListRow) : String :=
  let line := fun (key value : String) => "      \"" ++ key ++ "\": " ++ value
  "    \x7b\n" ++
    String.intercalate ",\n"
      [line "type" (Text.jsonString e.declType), line "name" (Text.jsonString e.name),
       line "file" ((e.file.map Text.jsonString).getD "null"),
       line "mod" (Text.jsonString e.label)] ++
    "\n    \x7d"

def json (l : Listing) : String :=
  let entries :=
    if l.entries.isEmpty then "[]"
    else "[\n" ++ String.intercalate ",\n" (l.entries.map jsonEntry) ++ "\n  ]"
  "\x7b\n  \"declarations\": " ++ entries ++ ",\n  \"unrecognised\": " ++
    toString l.unrecognised ++ "\n\x7d\n"

end Listing

/-! ## One declaration -/

/-- The source of a declaration, and where it comes from. -/
def showDeclaration (coloured : Bool) (d : Declaration) : Output where
  out := d.block.raw ++ "\n"
  err := match d.block.file with
    | none => ""
    | some file =>
      Style.yellow.paint coloured ("// " ++ file.name ++ " (" ++ file.label ++ ")") ++ "\n"

/-! ## Checks -/

def changeLine (coloured : Bool) : Text.LineChange → String
  | .kept line => "   " ++ String.ofList (Text.endLine line)
  | .deleted line =>
    "  " ++ Style.red.paint coloured ("-" ++ String.ofList (Text.endLine line))
  | .inserted line =>
    "  " ++ Style.green.paint coloured ("+" ++ String.ofList (Text.endLine line))

namespace FileCheck

def warning (coloured : Bool) (c : FileCheck) (d : Diagnostic) : String :=
  Style.yellow.paint coloured "warning:" ++ " " ++ c.file.name ++ ":" ++ toString d.line ++ ": " ++
    d.message ++ "\n"

/-- The complaint about a file that does not come out as it was. -/
def mismatchText (coloured : Bool) (c : FileCheck) : String :=
  Style.red.paint coloured "mismatch:" ++ " " ++ c.location ++ " does not round-trip\n" ++
    String.join (c.changes.map (changeLine coloured))

def report (coloured : Bool) (c : FileCheck) : String :=
  String.join (c.diagnostics.map (c.warning coloured)) ++
    (if c.faithful then "" else c.mismatchText coloured)

end FileCheck

namespace ProjectCheck

def unrecognisedLine (coloured : Bool) (p : WaitingBlock) : String :=
  let place := match p.block.file with
    | some file => " in " ++ file.name
    | none => ""
  Style.red.paint coloured "unrecognised:" ++ " block `" ++ p.block.name ++
    "` has unregistered type `" ++ p.need.display ++ "`" ++ place ++ "\n"

def summary (coloured : Bool) (c : ProjectCheck) : String :=
  if c.passed then
    Style.green.paint coloured "ok:" ++ " " ++ toString c.files.length ++
      " file(s) checked, all declarations recognised.\n"
  else
    toString c.files.length ++ " file(s) checked: " ++ toString c.mismatches.length ++
      " round-trip mismatch(es), " ++ toString c.waiting.length ++
      " unrecognised block(s).\n"

def output (coloured : Bool) (c : ProjectCheck) : Output where
  code := if c.passed then 0 else 1
  out := c.summary coloured
  err := String.join (c.files.map (FileCheck.report coloured)) ++
    String.join (c.waiting.map (unrecognisedLine coloured))

end ProjectCheck

end AssetDecl.Cli
