/-!
# Letters, blanks and lines

Keywords and names are compared up to the case of ASCII letters, words are separated by five
blank characters, and lines are counted by line feeds alone.
-/

namespace AssetDecl.Text

/-- ASCII capitals become small letters; every other character is kept. -/
def foldCase (s : String) : String :=
  String.ofList (s.toList.map Char.toLower)

@[simp] theorem toList_foldCase (s : String) :
    (foldCase s).toList = s.toList.map Char.toLower := by
  simp [foldCase]

/-- The blanks between words: space, tab, line feed, vertical tab and carriage return. -/
def isBlank (c : Char) : Bool :=
  c == ' ' || c == '\t' || c == '\n' || c == '\x0b' || c == '\r'

/-- The characters that end a line comment. -/
def isLineEnd (c : Char) : Bool :=
  c == '\r' || c == '\n'

/-- Number of line feeds. -/
def lineFeeds (cs : List Char) : Nat :=
  cs.count '\n'

@[simp] theorem lineFeeds_nil : lineFeeds [] = 0 := rfl

@[simp] theorem lineFeeds_append (xs ys : List Char) :
    lineFeeds (xs ++ ys) = lineFeeds xs + lineFeeds ys := List.count_append

/-- A text without its first character when that is `c`. -/
def dropFirst (c : Char) (cs : List Char) : List Char :=
  match cs with
  | d :: rest => if d = c then rest else d :: rest
  | [] => []

/-- A text without its last character when that is `c`. -/
def dropLast (c : Char) (cs : List Char) : List Char :=
  if cs.getLast? = some c then cs.dropLast else cs

end AssetDecl.Text
