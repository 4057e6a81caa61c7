import AssetDecl.Catalogue.Run
import AssetDecl.Text.Lines

/-!
# Checking a project

Every visited file is parsed and rendered again, and has to come out as it was. Then no block may be
without a creator.
-/

namespace AssetDecl.Cli

/-- What became of one file. -/
structure FileCheck where
  file : SourceFile
  diagnostics : List Diagnostic
  /-- What the file holds as text, with replacement characters for bytes that are none. -/
  content : String
  /-- The file rendered from its tree. -/
  rendered : String
  /-- Whether the rendering has the bytes of the file. -/
  faithful : Bool
  deriving DecidableEq, Repr

namespace FileCheck

def ofBytes (file : SourceFile) (bytes : List UInt8) : FileCheck :=
  let content := Utf8.decodeLossy bytes
  let (tree, diagnostics) := SyntaxTree.read content
  let rendered := tree.render
  { file, diagnostics, content, rendered, faithful := bytes == Utf8.encode rendered }

/-- The lines of the file that the rendering keeps and changes. -/
def changes (c : FileCheck) : List Text.LineChange :=
  Text.LineChange.between (Text.lines c.content.toList) (Text.lines c.rendered.toList)

/-- The path of the file below its root. -/
def location (c : FileCheck) : String :=
  ((c.file.path.stripPrefix c.file.root).getD c.file.path).text

end FileCheck

/-- What became of a project. -/
structure ProjectCheck where
  files : List FileCheck
  waiting : List WaitingBlock
  deriving DecidableEq, Repr

namespace ProjectCheck

/-- The files that do not come out as they were. -/
def mismatches (c : ProjectCheck) : List FileCheck :=
  c.files.filter fun file => !file.faithful

def passed (c : ProjectCheck) : Bool :=
  c.mismatches.isEmpty && c.waiting.isEmpty

/-- Checks what a catalogue has visited, reading each file again. -/
def run (cat : Catalogue) (read : SourceFile → Except FileError (List UInt8)) :
    Except FileError ProjectCheck := do
  let visited := cat.defaultTypes.flatMap cat.visitedFiles
  let files ← visited.mapM fun file => (read file).map (FileCheck.ofBytes file)
  .ok ⟨files, cat.waiting⟩

end ProjectCheck

end AssetDecl.Cli
