import AssetDecl.Cursor

/-!
# Text cursors

A cursor over text in memory. It also counts how many bytes of UTF-8 it has passed.
-/

namespace AssetDecl

structure TextCursor where
  /-- The characters from the current one on. -/
  chars : List Char
  /-- Bytes in front of the current character. -/
  offset : Nat

namespace TextCursor

def ofString (text : String) : TextCursor :=
  ⟨text.toList, 0⟩

def advance (c : TextCursor) : TextCursor :=
  match c.chars with
  | [] => c
  | ch :: rest => ⟨rest, c.offset + ch.utf8Size⟩

instance : Cursor TextCursor where
  current c := c.chars.head?
  peek c := c.chars.tail.head?
  advance := advance
  remaining c := c.chars.length
  remaining_advance c h := by
    obtain ⟨_ | ⟨ch, rest⟩, offset⟩ := c <;> simp_all [advance]

end TextCursor

end AssetDecl
