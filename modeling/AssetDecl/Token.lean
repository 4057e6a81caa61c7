/-!
# Tokens

A token is a snippet of a declaration file with its kind. The text is kept exactly, so that the
texts of all tokens put together give the file back.
-/

namespace AssetDecl

/-- What a token is. -/
inductive TokenKind where
  /-- A run of blanks. -/
  | whitespace
  /-- A block with both braces, or without the closing one at the end of the input. -/
  | bracedBlock
  /-- A bare word. -/
  | word
  /-- From two slashes up to the line break, which is not part of it. -/
  | lineComment
  /-- A comment with its delimiters, or without the closing one at the end of the input. -/
  | blockComment
  deriving DecidableEq, Repr

/-- Both kinds of comment. -/
def TokenKind.isComment (kind : TokenKind) : Bool :=
  match kind with
  | .lineComment | .blockComment => true
  | _ => false

structure Token where
  kind : TokenKind
  text : String
  deriving DecidableEq, Repr

namespace Token

def isComment (token : Token) : Bool :=
  token.kind.isComment

/-- The characters of the token. -/
def chars (token : Token) : List Char :=
  token.text.toList

/-- The texts of the tokens in order. -/
def concat (tokens : List Token) : String :=
  String.join (tokens.map text)

end Token

end AssetDecl
