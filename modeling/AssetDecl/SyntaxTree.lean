import AssetDecl.Text.Letters
import AssetDecl.Token

/-!
# Syntax trees

A declaration file is a list of leaves and blocks. A block has the leaves of its header and the
token with its braces. Leaves in document order give the tokens of the file back, so a tree renders
to exactly the text it was read from.
-/

namespace AssetDecl

/-- What a leaf is for. -/
inductive LeafKind where
  | whitespace
  | comment
  | typeWord
  | nameWord
  /-- A surplus identifier of a header, kept only for rendering. -/
  | surplus
  deriving DecidableEq, Repr

structure Leaf where
  kind : LeafKind
  token : Token
  deriving DecidableEq, Repr

/-- A declaration: the leaves in front of the brace, and the braces with what is between them. -/
structure Block where
  header : Array Leaf
  body : Token
  /-- Where the name stands in the header; none for an anonymous block. -/
  nameIndex : Option Nat
  /-- Where the type stands in the header. -/
  typeIndex : Option Nat
  deriving DecidableEq, Repr

namespace Block

/-- The text of the header leaf at an index. -/
def textAt (block : Block) (index : Option Nat) : Option String := do
  let i ← index
  let leaf ← block.header[i]?
  return leaf.token.text

/-- The type keyword, for a header with a type and a name. -/
def keyword (block : Block) : Option String :=
  block.textAt block.typeIndex

/-- The name, absent only from anonymous blocks. -/
def name (block : Block) : Option String :=
  block.textAt block.nameIndex

/-- The text between the outer braces. -/
def contents (block : Block) : String :=
  String.ofList (Text.dropLast '}' (Text.dropFirst '{' block.body.chars))

/-- The tokens of a block in document order. -/
def tokens (block : Block) : List Token :=
  block.header.toList.map Leaf.token ++ [block.body]

/-- Header and braces as they stand in the file. -/
def render (block : Block) : String :=
  Token.concat block.tokens

end Block

inductive Node where
  | leaf (leaf : Leaf)
  | block (block : Block)
  deriving DecidableEq, Repr

namespace Node

def tokens : Node → List Token
  | leaf l => [l.token]
  | block b => b.tokens

def block? : Node → Option Block
  | leaf _ => none
  | block b => some b

end Node

/-- A declaration file. -/
structure SyntaxTree where
  children : List Node := []
  deriving DecidableEq, Repr

namespace SyntaxTree

/-- The tokens of all leaves and blocks in document order. -/
def tokens (tree : SyntaxTree) : List Token :=
  tree.children.flatMap Node.tokens

def render (tree : SyntaxTree) : String :=
  Token.concat tree.tokens

/-- The declarations in document order. -/
def blocks (tree : SyntaxTree) : List Block :=
  tree.children.filterMap Node.block?

end SyntaxTree

end AssetDecl
