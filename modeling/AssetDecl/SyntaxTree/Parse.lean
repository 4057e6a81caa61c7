import AssetDecl.Cursor.Bytes
import AssetDecl.Cursor.Text
import AssetDecl.Lexeme
import AssetDecl.SyntaxTree

/-!
# Parsing declaration files

The tokens are added one by one to an outline. Blanks and comments go to the header being built, or
to the tree while there is none; the first identifier is the name, until a second one makes it the
type; a block closes the header. Parsing never fails.
-/

namespace AssetDecl

/-- A tree under construction. -/
structure Outline where
  nodes : Array Node := #[]
  /-- The header in front of the next block, from its first identifier on. -/
  header : Array Leaf := #[]
  /-- The line of the first identifier of the header. -/
  headerLine : Nat := 1
  nameIndex : Option Nat := none
  typeIndex : Option Nat := none
  diagnostics : Array Diagnostic := #[]

namespace Outline

def addTrivia (o : Outline) (leaf : Leaf) : Outline :=
  if o.nameIndex.isSome then { o with header := o.header.push leaf }
  else { o with nodes := o.nodes.push (.leaf leaf) }

/-- Makes the leaf at an index the type. -/
def retype (header : Array Leaf) (index : Nat) : Array Leaf :=
  header.modify index fun leaf => { leaf with kind := .typeWord }

def addWord (o : Outline) (token : Token) (line : Nat) : Outline :=
  match o.nameIndex, o.typeIndex with
  | none, _ =>
    { o with
      header := o.header.push ⟨.nameWord, token⟩
      headerLine := line
      nameIndex := some o.header.size }
  | some first, none =>
    { o with
      header := (retype o.header first).push ⟨.nameWord, token⟩
      nameIndex := some o.header.size
      typeIndex := some first }
  | some _, some _ =>
    { o with
      header := o.header.push ⟨.surplus, token⟩
      diagnostics := o.diagnostics.push ⟨.extraHeaderWord token.text, line⟩ }

def addBlock (o : Outline) (token : Token) (line : Nat) : Outline :=
  if o.nameIndex.isNone then
    { o with
      nodes := o.nodes.push (.block ⟨#[], token, none, none⟩)
      diagnostics := o.diagnostics.push ⟨.anonymousBlock, line⟩ }
  else
    { o with
      nodes := o.nodes.push (.block ⟨o.header, token, o.nameIndex, o.typeIndex⟩)
      header := #[]
      nameIndex := none
      typeIndex := none }

/-- Adds a token, after the diagnostic it comes with. -/
def add (o : Outline) (lexeme : Lexeme) : Outline :=
  let o := { o with diagnostics := o.diagnostics ++ lexeme.diagnostics }
  match lexeme.token.kind with
  | .whitespace => o.addTrivia ⟨.whitespace, lexeme.token⟩
  | .lineComment | .blockComment => o.addTrivia ⟨.comment, lexeme.token⟩
  | .word => o.addWord lexeme.token lexeme.line
  | .bracedBlock => o.addBlock lexeme.token lexeme.line

/-- The tree at the end of the input. A header without a block stays in it. -/
def finish (o : Outline) : SyntaxTree × List Diagnostic :=
  if o.header.isEmpty then (⟨o.nodes.toList⟩, o.diagnostics.toList)
  else
    (⟨o.nodes.toList ++ o.header.toList.map .leaf⟩,
      o.diagnostics.toList ++ [⟨.danglingHeader, o.headerLine⟩])

/-- The tree and diagnostics of a list of tokens. -/
def ofLexemes (lexemes : List Lexeme) : SyntaxTree × List Diagnostic :=
  (lexemes.foldl add {}).finish

end Outline

/-- The tokens of a text. -/
def tokenize (text : String) : List Token :=
  (Cursor.lexemes (TextCursor.ofString text)).map Lexeme.token

namespace SyntaxTree

/-- Parses from any cursor and hands the cursor back. -/
def readFrom {γ : Type} [Cursor γ] (cursor : γ) : (SyntaxTree × List Diagnostic) × γ :=
  let (lexemes, tokenizer) := Tokenizer.run { cursor }
  (Outline.ofLexemes lexemes, tokenizer.cursor)

def read (text : String) : SyntaxTree × List Diagnostic :=
  (readFrom (TextCursor.ofString text)).1

def parse (text : String) : SyntaxTree :=
  (read text).1

/-- Parses a byte stream. Only a read failure, given by its reason, fails the parse. -/
def readStream (stream : ByteStream) : Except String (SyntaxTree × List Diagnostic) :=
  let (byType, cursor) := readFrom (ByteCursor.ofStream stream)
  match cursor.error with
  | some reason => .error reason
  | none => .ok byType

end SyntaxTree

end AssetDecl
