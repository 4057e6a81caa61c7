/-!
# Diagnostics

What a declaration file gets wrong without stopping the parse. Each has the line it starts on,
counted from one.
-/

namespace AssetDecl

inductive Problem where
  /-- A third identifier in front of a block. -/
  | extraHeaderWord (word : String)
  /-- A block without a name. -/
  | anonymousBlock
  /-- Identifiers at the end of the input that no block follows. -/
  | danglingHeader
  /-- A block comment still open at the end of the input. -/
  | unterminatedComment
  /-- A block still open at the end of the input. -/
  | unterminatedBlock
  deriving DecidableEq, Repr

structure Diagnostic where
  problem : Problem
  line : Nat
  deriving DecidableEq, Repr

/-- The problem in words. -/
def Problem.message : Problem → String
  | .extraHeaderWord word =>
    "invalid number of decl block headers, already got a name and type (`" ++ word ++ "`)"
  | .anonymousBlock => "unnamed block encountered"
  | .danglingHeader => "declaration header without a block"
  | .unterminatedComment => "unterminated block comment"
  | .unterminatedBlock => "unterminated braced block"

def Diagnostic.message (diagnostic : Diagnostic) : String :=
  diagnostic.problem.message

end AssetDecl
