import Std.Data.ExtTreeMap

/-!
# Declaration types

A category of declaration. Any text names a type; a few of them most content trees carry.
-/

namespace AssetDecl

structure DeclType where
  name : String
  deriving DecidableEq, Repr

namespace DeclType

/-- Types come in the order of their names. -/
instance : Ord DeclType := ⟨compareOn name⟩

instance : Std.TransOrd DeclType := inferInstanceAs (Std.TransCmp (compareOn name))

instance : Std.LawfulEqOrd DeclType where
  eq_of_compare {a b} h := by
    have : a.name = b.name := Std.LawfulEqOrd.eq_of_compare (α := String) h
    cases a
    cases b
    simp_all

@[simp] theorem compare_eq_eq {a b : DeclType} : compare a b = .eq ↔ a = b :=
  Std.LawfulEqOrd.compare_eq_iff_eq

/-- The types that most content trees carry. -/
def wellKnown : List DeclType :=
  [⟨"entitydef"⟩, ⟨"fx"⟩, ⟨"material"⟩, ⟨"model_def"⟩, ⟨"particle"⟩, ⟨"skin"⟩,
   ⟨"sound_shader"⟩, ⟨"table"⟩, ⟨"xdata"⟩]

/-- The types in ascending order, each once. -/
def sorted (types : List DeclType) : List DeclType :=
  (Std.ExtTreeMap.unitOfList types).keys

end DeclType

end AssetDecl
