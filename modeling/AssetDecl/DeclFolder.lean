import AssetDecl.DeclType
import AssetDecl.Text.Quoted

/-!
# Declaration folders

A folder to scan, relative to every search root, with the extension of its files and the type of
blocks without a keyword.
-/

namespace AssetDecl

structure DeclFolder where
  /-- With forward slashes and one at the end, unless it is empty. -/
  folder : String
  /-- With its dot in front, unless it is empty. -/
  extension : String
  defaultType : DeclType
  deriving DecidableEq, Repr

namespace DeclFolder

/-- Every backslash becomes a slash. -/
def forwardSlashes (s : String) : String :=
  String.ofList (s.toList.map fun c => if c = '\\' then '/' else c)

/-- A slash at the end of a text that is not empty. -/
def withSlash (s : String) : String :=
  if s = "" || s.toList.getLast? == some '/' then s else s ++ "/"

/-- A dot in front of a text that is not empty. -/
def withDot (s : String) : String :=
  if s = "" || s.toList.head? == some '.' then s else "." ++ s

/-- Brings folder and extension into normal form. -/
def normalized (defaultType : DeclType) (folder extension : String) : DeclFolder :=
  ⟨withSlash (forwardSlashes folder), withDot extension, defaultType⟩

/-- The folder as it is shown for debugging. -/
def debugText (f : DeclFolder) : String :=
  "RegisteredFolder \x7b folder: " ++ Text.quoted f.folder ++ ", extension: " ++
    Text.quoted f.extension ++ ", default_type: DeclarationType(" ++
    Text.quoted f.defaultType.name ++ ") \x7d"

end DeclFolder

end AssetDecl
