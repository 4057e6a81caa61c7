import AssetDecl.DeclType
import AssetDecl.Path
import AssetDecl.SyntaxTree
import Std.Data.ExtTreeSet

/-!
# Declarations

A declaration has a type, a name and the source of its block, which reloads replace in place. The
source remembers the file it was found in.
-/

namespace AssetDecl

/-! ## Files -/

/-- Size and modification time of a file when it was visited. -/
structure Fingerprint where
  size : Nat
  /-- Milliseconds since 1970. -/
  modified : Nat
  deriving DecidableEq, Repr

/-- A declaration file found below a search root. -/
structure SourceFile where
  /-- The path from the search root, with forward slashes. -/
  name : String
  root : Path
  /-- Label of the search root. -/
  label : String
  fingerprint : Fingerprint
  deriving DecidableEq, Repr

namespace SourceFile

/-- By name, then root, then label, then size, then time. -/
def order : SourceFile → SourceFile → Ordering :=
  compareLex (compareOn name) (compareLex (compareOn root) (compareLex (compareOn label)
    (compareLex (compareOn fun f => f.fingerprint.size)
      (compareOn fun f => f.fingerprint.modified))))

instance : Ord SourceFile := ⟨order⟩

instance : Std.TransOrd SourceFile :=
  inferInstanceAs (Std.TransCmp (compareLex (compareOn name) (compareLex (compareOn root)
    (compareLex (compareOn label) (compareLex (compareOn fun f => f.fingerprint.size)
      (compareOn fun f => f.fingerprint.modified))))))

def path (file : SourceFile) : Path :=
  file.root.join ⟨file.name⟩

/-- Whether this is the same file with other contents. -/
def hasOtherContents (file old : SourceFile) : Bool :=
  file.name == old.name && file.root.same old.root && file.fingerprint != old.fingerprint

end SourceFile

/-- Files in order, each once. -/
abbrev FileSet := Std.ExtTreeSet SourceFile

/-! ## Sources of declarations -/

/-- The captured source of a declaration. -/
structure BlockSource where
  /-- The type keyword of the header, empty when it had none. -/
  keyword : String := ""
  name : String := ""
  /-- The text between the outer braces. -/
  contents : String := ""
  /-- Header and braces as they stand in the file. -/
  raw : String := ""
  label : String := ""
  file : Option SourceFile := none
  deriving DecidableEq, Repr

/-- Captures a parsed block. -/
def Block.capture (block : Block) (file : Option SourceFile) : BlockSource where
  keyword := block.keyword.getD ""
  name := block.name.getD ""
  contents := block.contents
  raw := block.render
  label := (file.map SourceFile.label).getD ""
  file := file

/-! ## Declarations and their creators -/

structure Declaration where
  declType : DeclType
  name : String
  block : BlockSource
  /-- How often the source was replaced. -/
  revision : Nat := 0
  /-- Who made it; empty for plain declarations. -/
  maker : String := ""
  deriving DecidableEq, Repr

namespace Declaration

/-- Replaces the source. -/
def setBlock (d : Declaration) (block : BlockSource) : Declaration :=
  { d with block, revision := d.revision + 1 }

end Declaration

/-- Builds declarations of one type. -/
structure Creator where
  declType : DeclType
  create : String → BlockSource → Declaration

/-- Makes plain declarations of a type. -/
def Creator.plain (declType : DeclType) : Creator :=
  ⟨declType, fun name block => { declType, name, block }⟩

/-- Makes declarations that tell who made them. -/
def Creator.signed (declType : DeclType) (maker : String) : Creator :=
  ⟨declType, fun name block => { declType, name, block, maker }⟩

/-- Makes declarations whose names start with a tag. -/
def Creator.tagged (declType : DeclType) (tag : String) : Creator :=
  ⟨declType, fun name block => { declType, name := tag ++ ":" ++ name, block }⟩

/-- A creator's declarations have its own type and the name asked for. -/
def Creator.Faithful (c : Creator) : Prop :=
  ∀ name block, (c.create name block).declType = c.declType ∧ (c.create name block).name = name ∧
    (c.create name block).block = block

theorem Creator.faithful_plain (t : DeclType) : (plain t).Faithful :=
  fun _ _ => ⟨rfl, rfl, rfl⟩

end AssetDecl
