import AssetDecl.Cursor
import AssetDecl.Diagnostic
import AssetDecl.Text.Letters
import AssetDecl.Token

/-!
# Cutting text into tokens

A token is scanned by an automaton with one character of lookahead. Each character is left for the
next token, taken, or taken as the last one of the token. The tokenizer never fails: what the end of
the input cuts short is a token all the same, with a diagnostic.
-/

namespace AssetDecl

/-! ## The automaton -/

/-- Where in a token the scan is. -/
inductive Mode where
  /-- Nothing taken yet. -/
  | start
  | blank
  | word
  /-- In a block, with the number of braces to close and whether inside quotes. -/
  | block (depth : Nat) (quoted : Bool)
  /-- Before the star that opens a comment. -/
  | commentOpening
  | comment
  /-- Before the slash that closes a comment. -/
  | commentClosing
  /-- Before the second slash of a line comment. -/
  | lineOpening
  | line
  deriving DecidableEq, Repr

/-- What happens to a character. -/
inductive Move where
  /-- It belongs to the next token. -/
  | leave
  /-- It is taken and the scan goes on. -/
  | take (next : Mode)
  /-- It is taken and ends the token. -/
  | finish
  deriving DecidableEq, Repr

namespace Mode

/-- A word ends before a blank, a brace and the start of a comment. -/
def endsWord (ch : Char) (peek : Option Char) : Bool :=
  ch == '{' || ch == '}' || Text.isBlank ch ||
    (ch == '/' && (peek == some '*' || peek == some '/'))

/-- The first character chooses the token. A closing brace outside a block is a word of its own. -/
def first (ch : Char) (peek : Option Char) : Move :=
  if Text.isBlank ch then .take .blank
  else if ch = '{' then .take (.block 1 false)
  else if ch = '/' ∧ peek = some '*' then .take .commentOpening
  else if ch = '/' ∧ peek = some '/' then .take .lineOpening
  else if ch = '}' then .finish
  else .take .word

/-- Braces count outside quotes only, and a quote starts or ends a quoted part. -/
def inBlock (depth : Nat) (quoted : Bool) (ch : Char) : Move :=
  if ch = '"' then .take (.block depth !quoted)
  else if quoted then .take (.block depth true)
  else if ch = '{' then .take (.block (depth + 1) false)
  else if ch = '}' then if depth ≤ 1 then .finish else .take (.block (depth - 1) false)
  else .take (.block depth false)

/-- The move on the character `ch` that `peek` follows. -/
def move (mode : Mode) (ch : Char) (peek : Option Char) : Move :=
  match mode with
  | start => first ch peek
  | blank => if Text.isBlank ch then .take blank else .leave
  | word => if endsWord ch peek then .leave else .take word
  | block depth quoted => inBlock depth quoted ch
  | commentOpening => .take comment
  | comment => if ch = '*' ∧ peek = some '/' then .take commentClosing else .take comment
  | commentClosing => .finish
  | lineOpening => .take line
  | line => if Text.isLineEnd ch then .leave else .take line

/-- The kind of a token whose scan stops in this mode. -/
def kind : Mode → TokenKind
  | start | word => .word
  | blank => .whitespace
  | block _ _ => .bracedBlock
  | commentOpening | comment | commentClosing => .blockComment
  | lineOpening | line => .lineComment

/-- What is wrong when the input ends in this mode. -/
def problemAtEnd : Mode → Option Problem
  | block _ _ => some .unterminatedBlock
  | commentOpening | comment | commentClosing => some .unterminatedComment
  | _ => none

end Mode

/-! ## One token -/

/-- How a scan stopped. -/
structure Scanned (γ : Type) where
  mode : Mode
  /-- The characters taken, the last one first. -/
  taken : List Char
  cursor : γ
  /-- Whether the input ended before the token did. -/
  cutShort : Bool

section

variable {γ : Type} [Cursor γ]

/-- Scans on from `mode` with the characters of `taken` taken. -/
def Mode.scan (mode : Mode) (cursor : γ) (taken : List Char) : Scanned γ :=
  match h : Cursor.current cursor with
  | none => ⟨mode, taken, cursor, true⟩
  | some ch =>
    match mode.move ch (Cursor.peek cursor) with
    | .leave => ⟨mode, taken, cursor, false⟩
    | .finish => ⟨mode, ch :: taken, Cursor.advance cursor, false⟩
    | .take next =>
      have := Cursor.remaining_advance_of_eq h
      next.scan (Cursor.advance cursor) (ch :: taken)
termination_by Cursor.remaining cursor

/-- The longer the text taken, the less remains. -/
theorem Mode.remaining_scan_le (mode : Mode) (cursor : γ) (taken : List Char) :
    Cursor.remaining (mode.scan cursor taken).cursor + (mode.scan cursor taken).taken.length ≤
      Cursor.remaining cursor + taken.length := by
  fun_induction Mode.scan mode cursor taken with
  | case1 => simp
  | case2 => simp
  | case3 mode cursor taken ch h hm =>
    have := Cursor.remaining_advance_of_eq h
    simp only [List.length_cons]
    omega
  | case4 mode cursor taken ch h next hm this ih =>
    simp only [List.length_cons] at ih
    omega

/-- A token, the line it starts on and what is wrong with it. -/
structure Lexeme where
  token : Token
  line : Nat
  problem : Option Problem := none
  deriving DecidableEq, Repr

/-- The diagnostic of a token that the end of the input cuts short. -/
def Lexeme.diagnostics (lexeme : Lexeme) : List Diagnostic :=
  lexeme.problem.toList.map (⟨·, lexeme.line⟩)

/-! ## The tokenizer -/

/-- Cuts the characters of a cursor into tokens. -/
structure Tokenizer (γ : Type) where
  cursor : γ
  /-- The line of the cursor, counted from one. -/
  line : Nat := 1
  diagnostics : List Diagnostic := []

namespace Tokenizer

/-- The token that a scan stopped at, none when it took nothing. -/
def ofScan (t : Tokenizer γ) (scanned : Scanned γ) : Option (Lexeme × Tokenizer γ) :=
  if scanned.taken.isEmpty then none
  else
    let lexeme : Lexeme :=
      { token := ⟨scanned.mode.kind, String.ofList scanned.taken.reverse⟩
        line := t.line
        problem := if scanned.cutShort then scanned.mode.problemAtEnd else none }
    some (lexeme,
      { cursor := scanned.cursor
        line := t.line + Text.lineFeeds scanned.taken
        diagnostics := t.diagnostics ++ lexeme.diagnostics })

/-- The next token and the tokenizer past it, none at the end of the input. -/
def next? (t : Tokenizer γ) : Option (Lexeme × Tokenizer γ) :=
  t.ofScan (Mode.start.scan t.cursor [])

/-- Hands out the diagnostics recorded so far. -/
def releaseDiagnostics (t : Tokenizer γ) : List Diagnostic × Tokenizer γ :=
  (t.diagnostics, { t with diagnostics := [] })

theorem remaining_next?_lt {t t' : Tokenizer γ} {lexeme : Lexeme}
    (h : t.next? = some (lexeme, t')) : Cursor.remaining t'.cursor < Cursor.remaining t.cursor := by
  have hle := Mode.remaining_scan_le Mode.start t.cursor []
  unfold next? ofScan at h
  split at h
  · simp at h
  · rename_i hne
    simp only [Option.some.injEq, Prod.mk.injEq] at h
    obtain ⟨-, rfl⟩ := h
    simp only [List.isEmpty_iff] at hne
    have := List.length_pos_iff.2 hne
    simp only [List.length_nil, Nat.add_zero] at hle ⊢
    omega

/-- Collects the remaining tokens behind those in `seen`. -/
def collect (t : Tokenizer γ) (seen : Array Lexeme) : Array Lexeme × Tokenizer γ :=
  match h : t.next? with
  | none => (seen, t)
  | some (lexeme, t') =>
    have := remaining_next?_lt h
    t'.collect (seen.push lexeme)
termination_by Cursor.remaining t.cursor

/-- The remaining tokens and the tokenizer at the end of the input. -/
def run (t : Tokenizer γ) : List Lexeme × Tokenizer γ :=
  let (seen, last) := t.collect #[]
  (seen.toList, last)

end Tokenizer

/-- The tokens of the characters under a cursor. -/
def Cursor.lexemes (cursor : γ) : List Lexeme :=
  (Tokenizer.run { cursor }).1

end

end AssetDecl
