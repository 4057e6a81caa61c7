/-!
# The order of a table

A hash table hands out its keys in an order of which nothing is known but that it has them all. It
may be another one after a key has been added.
-/

namespace AssetDecl

/-- An order in which a table may hand out its keys. -/
structure TableOrder (κ : Type) where
  arrange : List κ → List κ
  perm : ∀ keys, (arrange keys).Perm keys

namespace TableOrder

variable {κ : Type} {key : κ} {keys : List κ}

/-- The keys as they are listed. -/
def listed : TableOrder κ := ⟨id, List.Perm.refl⟩

@[simp] theorem mem_arrange (order : TableOrder κ) : key ∈ order.arrange keys ↔ key ∈ keys :=
  (order.perm keys).mem_iff

/-- One key before all others. -/
def startingWith [DecidableEq κ] (key : κ) : TableOrder κ where
  arrange keys := if key ∈ keys then key :: keys.erase key else keys
  perm keys := by
    split
    · rename_i hkey
      exact (List.perm_cons_erase hkey).symm
    · exact .refl keys

theorem arrange_startingWith [DecidableEq κ] (h : key ∈ keys) :
    (startingWith key).arrange keys = key :: keys.erase key :=
  if_pos h

end TableOrder

end AssetDecl
