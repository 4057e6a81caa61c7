import AssetDecl.Toml.Datetime

/-!
# TOML values

The values of a TOML document. Numbers with a point are kept as text, since only their form matters
here.
-/

namespace AssetDecl.Toml

inductive Value where
  | string (text : String)
  | integer (n : Int)
  | float (text : String)
  /-- A well-written number that is too large for the machine. -/
  | outOfRange
  | boolean (b : Bool)
  | datetime (d : Datetime)
  | array (items : List Value)
  | table (entries : List (String × Value))

namespace Value

def asString : Value → Option String
  | string text => some text
  | _ => none

/-- An integer that is not negative and fits into eight bytes. -/
def asNat : Value → Option Nat
  | integer n => if 0 ≤ n ∧ n < 0x10000000000000000 then some n.toNat else none
  | _ => none

mutual

/-- Whether a value can be looked at, which takes machine numbers for all of its numbers. -/
def isReadable : Value → Bool
  | outOfRange => false
  | array items => allReadable items
  | table entries => entriesReadable entries
  | _ => true

def allReadable : List Value → Bool
  | [] => true
  | v :: rest => v.isReadable && allReadable rest

def entriesReadable : List (String × Value) → Bool
  | [] => true
  | (_, v) :: rest => v.isReadable && entriesReadable rest

end

def asArray : Value → Option (List Value)
  | array items => some items
  | _ => none

end Value

/-- A parse of the front of a text: what it means and what follows. -/
abbrev Parse (α : Type) := List Char → Option (α × List Char)

def isSpace (c : Char) : Bool :=
  c == ' ' || c == '\t'

/-- Drops spaces and tabs. -/
def skipSpaces (cs : List Char) : List Char :=
  cs.dropWhile isSpace

/-- What follows a line break, which is a line feed with or without a carriage return. -/
def lineBreak? : List Char → Option (List Char)
  | '\n' :: rest => some rest
  | '\r' :: '\n' :: rest => some rest
  | _ => none

/-- Characters that stand for themselves in comments and strings: all but the controls, and the
tab. -/
def isPlain (c : Char) : Bool :=
  c == '\t' || (0x20 ≤ c.toNat && c.toNat != 0x7f)

/-- The rest of a line that holds a comment, from the line break on. -/
def skipComment : List Char → Option (List Char)
  | [] => some []
  | '\n' :: rest => some ('\n' :: rest)
  | '\r' :: '\n' :: rest => some ('\r' :: '\n' :: rest)
  | c :: rest => if isPlain c then skipComment rest else none

/-- Spaces and a comment, if there is one. -/
def skipToLineEnd (cs : List Char) : Option (List Char) :=
  match skipSpaces cs with
  | '#' :: rest => skipComment rest
  | rest => some rest

/-- The end of a line: spaces, a comment and the line break or the end of the text. -/
def endOfLine (cs : List Char) : Option (List Char) := do
  match ← skipToLineEnd cs with
  | [] => some []
  | rest => lineBreak? rest

/-- Spaces, comments and line breaks, in at most `fuel` lines. -/
def skipLines : Nat → List Char → Option (List Char)
  | 0, cs => some cs
  | fuel + 1, cs => do
    let rest ← skipToLineEnd cs
    match lineBreak? rest with
    | some next => skipLines fuel next
    | none => some rest

/-- Everything that may stand between the items of an array. -/
def skipGap (cs : List Char) : Option (List Char) :=
  skipLines cs.length cs

end AssetDecl.Toml
