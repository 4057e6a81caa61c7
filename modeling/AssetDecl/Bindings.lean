import AssetDecl.Failure
import AssetDecl.Declaration
import AssetDecl.TableOrder
import AssetDecl.Text.Letters
import AssetDecl.Text.Quoted

/-!
# Bindings

Keywords of declaration headers are bound to creators, up to the case of ASCII letters. A block gets
its type from its keyword, or takes the default type of its folder when it has none; while there is
no creator, the block waits for one.
-/

namespace AssetDecl

/-- What a waiting block waits for. -/
inductive Need where
  /-- A keyword, case folded. -/
  | keyword (text : String)
  /-- A creator for the default type. -/
  | defaultType (declType : DeclType)
  deriving DecidableEq, Repr

def Need.display : Need → String
  | keyword text => text
  | defaultType t => t.name ++ " (default)"

/-- What a block with this keyword waits for, found where `defaultType` is the default. -/
def Need.of (keyword : String) (defaultType : DeclType) : Need :=
  if keyword = "" then .defaultType defaultType else .keyword (Text.foldCase keyword)

/-- The type of a block, or what has to be bound before it has one. -/
inductive Assignment where
  /-- There is a creator for this type. -/
  | assigned (declType : DeclType)
  | wanting (need : Need)
  deriving DecidableEq, Repr

structure Bindings where
  /-- Creators by keyword, case folded. -/
  byKeyword : Std.ExtTreeMap String Creator := ∅
  /-- For each type one of the creators bound for it. -/
  byType : Std.ExtTreeMap DeclType Creator := ∅

namespace Bindings

def isBound (b : Bindings) (keyword : String) : Bool :=
  b.byKeyword.contains (Text.foldCase keyword)

def keywordCreator? (b : Bindings) (keyword : String) : Option Creator :=
  b.byKeyword[Text.foldCase keyword]?

def typeCreator? (b : Bindings) (t : DeclType) : Option Creator :=
  b.byType[t]?

/-- Binds a keyword, which must not be bound yet. -/
def bindKeyword (b : Bindings) (keyword : String) (c : Creator) : Except Failure Bindings :=
  if b.isBound keyword then .error (.alreadyBound keyword)
  else .ok
    { byKeyword := b.byKeyword.insert (Text.foldCase keyword) c
      byType := b.byType.insert c.declType c }

/-- Some creator bound for a type, the first one in the order of the keywords. -/
def anyCreator (order : TableOrder String) (byKeyword : Std.ExtTreeMap String Creator)
    (t : DeclType) : Option Creator :=
  (order.arrange byKeyword.keys).findSome? fun key =>
    byKeyword[key]?.filter (·.declType = t)

/-- Removes the binding of a keyword. Its type keeps a creator as long as one is bound for it. -/
def unbindKeyword (b : Bindings) (keyword : String) (order : TableOrder String := .listed) :
    Except Failure (Creator × Bindings) :=
  match b.keywordCreator? keyword with
  | none => .error (.notBound keyword)
  | some c =>
    let byKeyword := b.byKeyword.erase (Text.foldCase keyword)
    let byType := match anyCreator order byKeyword c.declType with
      | some other => b.byType.insert c.declType other
      | none => b.byType.erase c.declType
    .ok (c, { byKeyword, byType })

/-- All bound keywords in ascending order. -/
def keywords (b : Bindings) : List String :=
  b.byKeyword.keys

/-- The type of a block with this keyword, empty for none, where `defaultType` is the default. -/
def assign (b : Bindings) (keyword : String) (defaultType : DeclType) : Assignment :=
  if keyword = "" then
    if b.byType.contains defaultType then .assigned defaultType
    else .wanting (.defaultType defaultType)
  else
    match b.keywordCreator? keyword with
    | some c => .assigned c.declType
    | none => .wanting (.keyword (Text.foldCase keyword))

/-- The type that a need asks for, once it has a creator. -/
def meet (b : Bindings) : Need → Option DeclType
  | .keyword text => (b.keywordCreator? text).map Creator.declType
  | .defaultType t => if b.byType.contains t then some t else none

/-- The bindings as they are shown for debugging. -/
def debugText (b : Bindings) : String :=
  "DeclarationRegistry \x7b type_names: " ++ Text.quotedList b.keywords ++ ", .. \x7d"

end Bindings

end AssetDecl
