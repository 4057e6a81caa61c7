/-!
# Lines

Text is cut into lines, each with its line break: a line feed, a carriage return or both. Two texts
are compared line by line.
-/

namespace AssetDecl.Text

def isBreak (c : Char) : Bool :=
  c == '\n' || c == '\r'

/-- The lines of a text with their breaks; the last one may have none. -/
def lines : List Char → List (List Char)
  | [] => []
  | '\r' :: '\n' :: rest => ['\r', '\n'] :: lines rest
  | c :: rest =>
    if isBreak c then [c] :: lines rest
    else match lines rest with
      | [] => [[c]]
      | line :: others => (c :: line) :: others

/-- A line with a line feed where it has no break. -/
def endLine (line : List Char) : List Char :=
  if line.getLast?.any isBreak then line else line ++ ['\n']

/-! ## Differences -/

inductive LineChange where
  | kept (line : List Char)
  | deleted (line : List Char)
  | inserted (line : List Char)
  deriving DecidableEq, Repr

namespace LineChange

/-- The changes from one list of lines to another. What comes after their common start is deleted
and inserted as a whole. -/
def between : List (List Char) → List (List Char) → List LineChange
  | [], new => new.map inserted
  | a :: old, [] => (a :: old).map deleted
  | a :: old, b :: new =>
    if a = b then kept a :: between old new
    else (a :: old).map deleted ++ (b :: new).map inserted

theorem between_self (lines : List (List Char)) : between lines lines = lines.map kept := by
  induction lines with
  | nil => rfl
  | cons line lines ih => simp [between, ih]

end LineChange

end AssetDecl.Text
