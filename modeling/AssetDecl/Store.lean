import AssetDecl.Bindings

/-!
# The store

Declarations by type and case-folded name. A declaration is an object of its own: replacing its
source and removing it from the store leave every handle to it valid.
-/

namespace AssetDecl

/-- Where a declaration is stored. -/
structure DeclKey where
  declType : DeclType
  /-- The name, case folded. -/
  name : String
  deriving DecidableEq, Repr

namespace DeclKey

/-- By type, then by name. -/
instance : Ord DeclKey := ⟨compareLex (compareOn declType) (compareOn name)⟩

instance : Std.TransOrd DeclKey :=
  inferInstanceAs (Std.TransCmp (compareLex (compareOn declType) (compareOn name)))

instance : Std.LawfulEqOrd DeclKey where
  eq_of_compare {a b} h := by
    have h' : (compare a.declType b.declType).then (compare a.name b.name) = .eq := h
    rw [Ordering.then_eq_eq] at h'
    have ht : a.declType = b.declType := Std.LawfulEqOrd.eq_of_compare (α := DeclType) h'.1
    have hn : a.name = b.name := Std.LawfulEqOrd.eq_of_compare (α := String) h'.2
    cases a
    cases b
    simp_all

@[simp] theorem compare_eq_eq {a b : DeclKey} : compare a b = .eq ↔ a = b :=
  Std.LawfulEqOrd.compare_eq_iff_eq

/-- The key of a declaration called `name`. -/
def of (declType : DeclType) (name : String) : DeclKey :=
  ⟨declType, Text.foldCase name⟩

end DeclKey

/-- Number of a declaration in the order of creation. -/
abbrev Handle := Nat

structure StoreEntry where
  handle : Handle
  /-- Default type of the scan that produced the current source; none when made on demand. -/
  origin : Option DeclType
  deriving DecidableEq, Repr

structure Store where
  /-- Every declaration ever made. -/
  objects : Array Declaration := #[]
  entries : Std.ExtTreeMap DeclKey StoreEntry := ∅

namespace Store

def find? (s : Store) (t : DeclType) (name : String) : Option Handle :=
  s.entries[DeclKey.of t name]?.map StoreEntry.handle

def declaration? (s : Store) (handle : Handle) : Option Declaration :=
  s.objects[handle]?

/-- Replaces the source of a declaration, stored or not. -/
def setBlock (s : Store) (handle : Handle) (block : BlockSource) : Store :=
  { s with objects := s.objects.modify handle (·.setBlock block) }

/-- Stores a new declaration. -/
def insertNew (s : Store) (key : DeclKey) (d : Declaration) (origin : Option DeclType) :
    Handle × Store :=
  (s.objects.size,
    { objects := s.objects.push d, entries := s.entries.insert key ⟨s.objects.size, origin⟩ })

/-- Removes a declaration from the store, and tells whether it was there. -/
def remove (s : Store) (t : DeclType) (name : String) : Bool × Store :=
  (s.entries.contains (DeclKey.of t name),
    { s with entries := s.entries.erase (DeclKey.of t name) })

/-- Creates the declaration of a block or replaces its source; none without a creator. -/
def install (s : Store) (bindings : Bindings) (t : DeclType) (block : BlockSource)
    (origin : DeclType) : Option Store :=
  match bindings.typeCreator? t with
  | none => none
  | some creator =>
    let key := DeclKey.of t block.name
    match s.entries[key]? with
    | some entry =>
      let s := s.setBlock entry.handle block
      some { s with entries := s.entries.insert key ⟨entry.handle, some origin⟩ }
    | none => some (s.insertNew key (creator.create block.name block) (some origin)).2

/-- The declarations of a type in the order of their folded names. -/
def handlesOf (s : Store) (t : DeclType) : List Handle :=
  s.entries.toList.filterMap fun (key, entry) =>
    if key.declType = t then some entry.handle else none

def declarationsOf (s : Store) (t : DeclType) : List Declaration :=
  (s.handlesOf t).filterMap s.declaration?

def count (s : Store) (t : DeclType) : Nat :=
  (s.handlesOf t).length

/-- The types with a declaration, in ascending order. -/
def types (s : Store) : List DeclType :=
  DeclType.sorted (s.entries.keys.map DeclKey.declType)

/-- Whether an entry of origin `origin` is not among the keys seen by its scan. -/
def isVanished (origin : DeclType) (seen : DeclKey → Bool) (key : DeclKey) (entry : StoreEntry) :
    Bool :=
  entry.origin == some origin && !seen key

/-- Drops the entries of an origin that its scan has not seen again. -/
def dropVanished (s : Store) (origin : DeclType) (seen : DeclKey → Bool) : Store :=
  { s with entries := s.entries.filter fun key entry => !isVanished origin seen key entry }

/-- The types that lose an entry so. -/
def vanishedTypes (s : Store) (origin : DeclType) (seen : DeclKey → Bool) : List DeclType :=
  (s.entries.filter fun key entry => isVanished origin seen key entry).keys.map DeclKey.declType

end Store

end AssetDecl
