import AssetDecl.Cursor.Text
import AssetDecl.Lexeme
import Mathlib.Logic.Function.Iterate
import Mathlib.Tactic

/-!
# Cutting a list of characters

A cursor shows a list of characters, and all the tokenizer sees of the cursor is that list:
`Mode.cut` scans a list by structural recursion, `lexemesFrom` cuts a whole list into tokens, and
the tokenizer over any cursor does the same (`Tokenizer.run_of_shows`), which leaves the cursor as
many characters further on as it has cut.
-/

namespace AssetDecl

/-! ## What a cursor shows -/

namespace Cursor

variable {γ : Type} [Cursor γ]

/-- The cursor goes through these characters to the end, with the next one always in view. -/
inductive Shows : γ → List Char → Prop where
  | nil {c : γ} (hc : current c = none) : Shows c []
  | cons {c : γ} {ch : Char} {rest : List Char} (hc : current c = some ch)
      (hp : peek c = rest.head?) (hr : Shows (advance c) rest) : Shows c (ch :: rest)

theorem Shows.advance_iterate {c : γ} {chars : List Char} (h : Shows c chars) {n : ℕ}
    (hn : n ≤ chars.length) : Shows (advance^[n] c) (chars.drop n) := by
  induction n generalizing c chars with
  | zero => exact h
  | succ n ih =>
    cases h with
    | nil _ => simp at hn
    | cons _ _ hr => exact ih hr (by simpa using hn)

end Cursor

theorem TextCursor.shows (chars : List Char) (offset : ℕ) :
    Cursor.Shows (⟨chars, offset⟩ : TextCursor) chars := by
  induction chars generalizing offset with
  | nil => exact .nil rfl
  | cons ch rest ih => exact .cons rfl rfl (ih _)

theorem TextCursor.shows_ofString (text : String) :
    Cursor.Shows (TextCursor.ofString text) text.toList :=
  shows text.toList 0

/-! ## One token -/

/-- Where a scan of a list of characters stops. -/
structure Cut where
  mode : Mode
  taken : List Char
  left : List Char
  /-- Whether the characters ended before the token did. -/
  cutShort : Bool

namespace Cut

def push (ch : Char) (k : Cut) : Cut :=
  { k with taken := ch :: k.taken }

@[simp] theorem mode_push (ch : Char) (k : Cut) : (k.push ch).mode = k.mode := rfl

@[simp] theorem taken_push (ch : Char) (k : Cut) : (k.push ch).taken = ch :: k.taken := rfl

/-- The token that was cut, when it starts on this line. -/
def lexeme (k : Cut) (line : ℕ) : Lexeme where
  token := ⟨k.mode.kind, String.ofList k.taken⟩
  line := line
  problem := if k.cutShort then k.mode.problemAtEnd else none

end Cut

namespace Mode

/-- Scans a list of characters from a mode on. -/
def cut (mode : Mode) : List Char → Cut
  | [] => ⟨mode, [], [], true⟩
  | ch :: rest =>
    match mode.move ch rest.head? with
    | .leave => ⟨mode, [], ch :: rest, false⟩
    | .finish => ⟨mode, [ch], rest, false⟩
    | .take next => (next.cut rest).push ch

theorem cut_leave {mode : Mode} {ch : Char} {rest : List Char}
    (h : mode.move ch rest.head? = .leave) :
    mode.cut (ch :: rest) = ⟨mode, [], ch :: rest, false⟩ := by
  simp only [cut, h]

theorem cut_finish {mode : Mode} {ch : Char} {rest : List Char}
    (h : mode.move ch rest.head? = .finish) :
    mode.cut (ch :: rest) = ⟨mode, [ch], rest, false⟩ := by
  simp only [cut, h]

theorem cut_take {mode next : Mode} {ch : Char} {rest : List Char}
    (h : mode.move ch rest.head? = .take next) :
    mode.cut (ch :: rest) = (next.cut rest).push ch := by
  simp only [cut, h]

theorem taken_append_left (mode : Mode) (chars : List Char) :
    (mode.cut chars).taken ++ (mode.cut chars).left = chars := by
  fun_induction cut mode chars with
  | case1 => rfl
  | case2 => rfl
  | case3 => rfl
  | case4 mode ch rest next _ ih => exact congrArg (ch :: ·) ih

theorem cut_left_eq_drop (mode : Mode) (chars : List Char) :
    (mode.cut chars).left = chars.drop (mode.cut chars).taken.length := by
  have h := congrArg (List.drop (mode.cut chars).taken.length) (taken_append_left mode chars)
  rwa [List.drop_left] at h

theorem length_cut_taken_le (mode : Mode) (chars : List Char) :
    (mode.cut chars).taken.length ≤ chars.length := by
  have h := congrArg List.length (taken_append_left mode chars)
  rw [List.length_append] at h
  omega

/-- A scan starts by taking a character. -/
theorem start_move_ne_leave (ch : Char) (peek : Option Char) : start.move ch peek ≠ .leave := by
  simp only [move, first]
  split_ifs <;> simp

theorem cut_start_taken_ne_nil (ch : Char) (rest : List Char) :
    (start.cut (ch :: rest)).taken ≠ [] := by
  cases h : start.move ch rest.head? with
  | leave => exact absurd h (start_move_ne_leave ch _)
  | finish => rw [cut_finish h]; simp
  | take next => rw [cut_take h]; simp

theorem length_cut_start_left_lt (ch : Char) (rest : List Char) :
    (start.cut (ch :: rest)).left.length < (ch :: rest).length := by
  have h := congrArg List.length (taken_append_left start (ch :: rest))
  have := List.length_pos_iff.2 (cut_start_taken_ne_nil ch rest)
  rw [List.length_append] at h
  omega

/-- Over a cursor a scan stops where it stops in the characters that the cursor shows. -/
theorem scan_of_shows {γ : Type} [Cursor γ] {c : γ} {chars : List Char}
    (h : Cursor.Shows c chars) (mode : Mode) (seen : List Char) :
    mode.scan c seen =
      { mode := (mode.cut chars).mode
        taken := (mode.cut chars).taken.reverse ++ seen
        cursor := Cursor.advance^[(mode.cut chars).taken.length] c
        cutShort := (mode.cut chars).cutShort } := by
  induction h generalizing mode seen with
  | nil hc =>
    rw [scan]
    split
    · rfl
    · simp_all
  | @cons c ch rest hc hp hr ih =>
    rw [scan]
    split
    · simp_all
    · rename_i ch' hc'
      obtain rfl : ch' = ch := Option.some.inj (hc'.symm.trans hc)
      rw [hp]
      cases hm : mode.move ch' rest.head? with
      | leave => rw [cut_leave hm]; rfl
      | finish => rw [cut_finish hm]; rfl
      | take next =>
        simp only
        rw [cut_take hm, ih next (ch' :: seen)]
        simp [Cut.push]

end Mode

/-! ## All tokens -/

/-- The tokens of a list of characters, the first of which is on line `line`. -/
def lexemesFrom (line : ℕ) : List Char → List Lexeme
  | [] => []
  | ch :: rest =>
    let k := Mode.start.cut (ch :: rest)
    k.lexeme line :: lexemesFrom (line + Text.lineFeeds k.taken) k.left
termination_by chars => chars.length
decreasing_by exact Mode.length_cut_start_left_lt ch rest

@[simp] theorem lexemesFrom_nil (line : ℕ) : lexemesFrom line [] = [] := by
  rw [lexemesFrom]

theorem lexemesFrom_cons (line : ℕ) (ch : Char) (rest : List Char) :
    lexemesFrom line (ch :: rest) =
      (Mode.start.cut (ch :: rest)).lexeme line ::
        lexemesFrom (line + Text.lineFeeds (Mode.start.cut (ch :: rest)).taken)
          (Mode.start.cut (ch :: rest)).left := by
  rw [lexemesFrom]

namespace Tokenizer

variable {γ : Type} [Cursor γ]

theorem next?_of_shows_nil {t : Tokenizer γ} (h : Cursor.Shows t.cursor []) : t.next? = none := by
  rw [next?, Mode.scan_of_shows h]
  rfl

theorem next?_of_shows_cons {t : Tokenizer γ} {ch : Char} {rest : List Char}
    (h : Cursor.Shows t.cursor (ch :: rest)) :
    t.next? =
      some ((Mode.start.cut (ch :: rest)).lexeme t.line,
        { cursor := Cursor.advance^[(Mode.start.cut (ch :: rest)).taken.length] t.cursor
          line := t.line + Text.lineFeeds (Mode.start.cut (ch :: rest)).taken
          diagnostics :=
            t.diagnostics ++ ((Mode.start.cut (ch :: rest)).lexeme t.line).diagnostics }) := by
  rw [next?, Mode.scan_of_shows h, ofScan]
  simp [Mode.cut_start_taken_ne_nil, Cut.lexeme, Text.lineFeeds]

/-- The tokenizer after all the characters that its cursor shows. -/
def atEnd (t : Tokenizer γ) (chars : List Char) : Tokenizer γ where
  cursor := Cursor.advance^[chars.length] t.cursor
  line := t.line + Text.lineFeeds chars
  diagnostics := t.diagnostics ++ (lexemesFrom t.line chars).flatMap Lexeme.diagnostics

theorem collect_of_shows {t : Tokenizer γ} {chars : List Char} (h : Cursor.Shows t.cursor chars)
    (seen : Array Lexeme) :
    t.collect seen = (seen ++ (lexemesFrom t.line chars).toArray, t.atEnd chars) := by
  generalize hl : t.line = line
  fun_induction lexemesFrom line chars generalizing t seen with
  | case1 line =>
    rw [collect]
    split
    · simp [atEnd]
    · rename_i ht
      rw [next?_of_shows_nil h] at ht
      simp at ht
  | case2 line ch rest k =>
    rename_i ih
    subst hl
    have happ : k.taken ++ k.left = ch :: rest := Mode.taken_append_left Mode.start (ch :: rest)
    have hshows := h.advance_iterate (Mode.length_cut_taken_le Mode.start (ch :: rest))
    rw [← Mode.cut_left_eq_drop] at hshows
    rw [collect]
    split
    · rename_i ht
      rw [next?_of_shows_cons h] at ht
      simp at ht
    · rename_i lexeme t' ht
      rw [next?_of_shows_cons h, Option.some.injEq, Prod.mk.injEq] at ht
      obtain ⟨rfl, rfl⟩ := ht
      rw [ih hshows _ rfl]
      simp only [atEnd, lexemesFrom_cons, Prod.mk.injEq, Tokenizer.mk.injEq]
      refine ⟨by simp [k], ?_, ?_, by simp [k]⟩
      · rw [← Function.iterate_add_apply, Nat.add_comm, ← List.length_append, happ]
      · rw [Nat.add_assoc, ← Text.lineFeeds_append, happ]

/-- The tokenizer cuts the characters that its cursor shows. -/
theorem run_of_shows {t : Tokenizer γ} {chars : List Char} (h : Cursor.Shows t.cursor chars) :
    t.run = (lexemesFrom t.line chars, t.atEnd chars) := by
  simp [run, collect_of_shows h]

end Tokenizer

theorem Cursor.lexemes_of_shows {γ : Type} [Cursor γ] {c : γ} {chars : List Char}
    (h : Cursor.Shows c chars) : Cursor.lexemes c = lexemesFrom 1 chars :=
  congrArg Prod.fst (Tokenizer.run_of_shows (t := { cursor := c }) h)

end AssetDecl
