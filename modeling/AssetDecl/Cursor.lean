/-!
# Cursors

A cursor is a forward-only view of a character sequence with one character of lookahead. The
tokenizer is written once against it and runs over text and over a byte stream alike.
-/

namespace AssetDecl

/-- A forward-only view of characters. `remaining` bounds how many are still to come. -/
class Cursor (γ : Type) where
  /-- The character under the cursor, none at the end of the input. -/
  current : γ → Option Char
  /-- The character after the current one. -/
  peek : γ → Option Char
  /-- Moves past the current character; does nothing at the end of the input. -/
  advance : γ → γ
  remaining : γ → Nat
  remaining_advance : ∀ c, current c ≠ none → remaining (advance c) < remaining c

namespace Cursor

variable {γ : Type} [Cursor γ]

def atEnd (c : γ) : Bool :=
  (current c).isNone

theorem remaining_advance_of_eq {c : γ} {ch : Char} (h : current c = some ch) :
    remaining (advance c) < remaining c :=
  remaining_advance c (by simp [h])

/-- Collects the characters up to the end, in reverse, behind those in `seen`. -/
def drainOnto (c : γ) (seen : List Char) : List Char × γ :=
  match h : current c with
  | none => (seen, c)
  | some ch =>
    have := remaining_advance_of_eq h
    drainOnto (advance c) (ch :: seen)
termination_by remaining c

/-- The characters from the current one to the end, and the cursor left there. -/
def drain (c : γ) : List Char × γ :=
  let (seen, last) := drainOnto c []
  (seen.reverse, last)

/-- The characters still to come. -/
def rest (c : γ) : List Char :=
  (drain c).1

end Cursor

end AssetDecl
