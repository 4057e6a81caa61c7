import Std.Data.ExtTreeMap

/-!
# Paths

A path is a text with slashes. It is compared by its components, to which repeated slashes, a slash
at the end and dots past the first component add nothing; the text itself is kept as it was given.
-/

namespace AssetDecl

inductive Component where
  /-- The slash in front of an absolute path. -/
  | root
  /-- A dot at the start of a relative path. -/
  | here
  /-- Two dots: the folder above. -/
  | up
  | name (text : String)
  deriving DecidableEq, Repr

namespace Component

/-- Place among the kinds of component. -/
def rank : Component → Nat
  | root => 0
  | here => 1
  | up => 2
  | name _ => 3

def label : Component → String
  | name text => text
  | _ => ""

/-- Root, dot and two dots come before every name, and names in the order of their bytes. -/
instance : Ord Component :=
  ⟨compareLex (compareOn rank) (compareOn label)⟩

instance : Std.TransOrd Component :=
  inferInstanceAs (Std.TransCmp (compareLex (compareOn rank) (compareOn label)))

end Component

structure Path where
  text : String
  deriving DecidableEq, Repr

namespace Path

/-- The pieces between slashes. -/
def cut : List Char → List (List Char)
  | [] => [[]]
  | c :: rest =>
    if c = '/' then [] :: cut rest
    else match cut rest with
      | piece :: pieces => (c :: piece) :: pieces
      | [] => [[c]]

def isAbsolute (p : Path) : Bool :=
  p.text.toList.head? == some '/'

/-- The component that a piece past the first one stands for. -/
def inner (piece : String) : Option Component :=
  if piece = "" || piece = "." then none
  else if piece = ".." then some .up
  else some (.name piece)

/-- The pieces of a path with the component that each stands for. -/
def parts (p : Path) : List (String × Option Component) :=
  match (cut p.text.toList).map String.ofList with
  | [] => []
  | first :: rest =>
    let head := if p.isAbsolute then some .root else if first = "." then some .here else inner first
    (first, head) :: rest.map fun piece => (piece, inner piece)

def components (p : Path) : List Component :=
  p.parts.filterMap Prod.snd

/-- What is done at each piece when the path is followed. A piece that stands for no component still
asks for a directory. -/
def steps (p : Path) : List Component :=
  p.parts.map fun (_, component) => component.getD .here

/-- Paths are the same when their components are. -/
def same (p q : Path) : Bool :=
  p.components == q.components

instance : Ord Path :=
  ⟨compareOn components⟩

instance : Std.TransOrd Path :=
  inferInstanceAs (Std.TransCmp (compareOn components))

/-- The path `q` seen from `p`: an absolute one replaces `p`, any other comes after a slash. -/
def join (p q : Path) : Path :=
  if q.isAbsolute then q
  else if p.text = "" || p.text.toList.getLast? == some '/' then ⟨p.text ++ q.text⟩
  else ⟨p.text ++ "/" ++ q.text⟩

/-- The last component, when it is a name. -/
def fileName (p : Path) : Option String :=
  match p.components.getLast? with
  | some (.name text) => some text
  | _ => none

/-- Pieces without those at both ends that stand for no component. -/
def trim (parts : List (String × Option Component)) : List (String × Option Component) :=
  let left := parts.dropWhile (·.2.isNone)
  (left.reverse.dropWhile (·.2.isNone)).reverse

/-- Pieces past the first `n` that stand for components. -/
def dropComponents : Nat → List (String × Option Component) → List (String × Option Component)
  | 0, parts => parts
  | _ + 1, [] => []
  | n + 1, (_, none) :: parts => dropComponents (n + 1) parts
  | n + 1, (_, some _) :: parts => dropComponents n parts

/-- What comes after `base`, when the components of `base` are the first ones of the path. -/
def stripPrefix (p base : Path) : Option Path :=
  if base.components.isPrefixOf p.components then
    some ⟨"/".intercalate ((trim (dropComponents base.components.length p.parts)).map Prod.fst)⟩
  else none

end Path

end AssetDecl
