import AssetDecl.Bytes.Stream
import AssetDecl.Declaration

/-!
# Access to files

What a scan needs of a file system: the files below a folder, and their bytes.
-/

namespace AssetDecl

/-- What opening a file gives. -/
inductive Opened where
  | stream (stream : ByteStream)
  | failed (reason : String)
  /-- Opening it stops the scan for good. -/
  | crashed
  deriving DecidableEq, Repr

structure FileAccess where
  /-- The files below a folder whose names end in an extension, at most so many levels down, in the
  order of their names. -/
  files : (folder extension : String) → (depth : Nat) → List SourceFile
  openFile : SourceFile → Opened

end AssetDecl
