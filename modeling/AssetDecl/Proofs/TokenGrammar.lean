import AssetDecl.Proofs.Cutting
import AssetDecl.SyntaxTree.Parse

/-!
# The grammar of tokens

`Fits kind text after` says, without the automaton, which texts of a kind may stand in front of
`after`: a run that cannot go on, or a comment or block that ends where it first can. The automaton
takes such a text (`fits_cut_start`), only one token fits at the start of a text (`Fits.unique`),
and so only one list of tokens fits a whole text (`Grammatical.unique`).
-/

namespace AssetDecl

namespace Grammar

/-! ## Longest and shortest starts -/

/-- `run` has the property `P` in front of `after`, and no longer start of the same text has it. -/
def Longest (P : List Char → List Char → Prop) (run after : List Char) : Prop :=
  P run after ∧ ∀ more rest, after = more ++ rest → P (run ++ more) rest → more = []

/-- `text` is the shortest start with the property `Q`, or all there is when no start has it. -/
def Shortest (Q : List Char → Prop) (text after : List Char) : Prop :=
  (Q text ∨ after = []) ∧ ∀ start others, text = start ++ others → others ≠ [] → ¬ Q start

theorem Longest.unique {P : List Char → List Char → Prop} {run run' after after' : List Char}
    (h : Longest P run after) (h' : Longest P run' after') (he : run ++ after = run' ++ after') :
    run = run' := by
  rcases List.append_eq_append_iff.1 he with ⟨more, rfl, rfl⟩ | ⟨more, rfl, rfl⟩
  · rw [h.2 more after' rfl h'.1, List.append_nil]
  · rw [h'.2 more after rfl h.1, List.append_nil]

theorem Shortest.eq_of_append {Q : List Char → Prop} {text after more after' : List Char}
    (h : Shortest Q text after) (h' : Shortest Q (text ++ more) after')
    (he : after = more ++ after') : more = [] := by
  by_contra hne
  rcases h.1 with hq | rfl
  · exact h'.2 text more rfl hne hq
  · exact hne (List.append_eq_nil_iff.1 he.symm).1

theorem Shortest.unique {Q : List Char → Prop} {text text' after after' : List Char}
    (h : Shortest Q text after) (h' : Shortest Q text' after')
    (he : text ++ after = text' ++ after') : text = text' := by
  rcases List.append_eq_append_iff.1 he with ⟨more, rfl, hm⟩ | ⟨more, rfl, hm⟩
  · rw [h.eq_of_append h' hm, List.append_nil]
  · rw [h'.eq_of_append h hm, List.append_nil]

theorem Shortest.of_nil (Q : List Char → Prop) : Shortest Q [] [] := by
  refine ⟨.inr rfl, fun start others he hne => ?_⟩
  exact absurd (List.append_eq_nil_iff.1 he.symm).2 hne

/-- A character in front of a shortest start, where it changes what is looked for. -/
theorem Shortest.cons {Q Q' : List Char → Prop} {ch : Char} {text after : List Char}
    (hQ : ∀ start, start <+: text → (Q (ch :: start) ↔ Q' start)) (hnil : ¬ Q [])
    (h : Shortest Q' text after) : Shortest Q (ch :: text) after := by
  refine ⟨h.1.imp_left (hQ text List.prefix_rfl).2, fun start others he hne => ?_⟩
  obtain _ | ⟨ch', start⟩ := start
  · exact hnil
  · rw [List.cons_append, List.cons.injEq] at he
    obtain ⟨rfl, he⟩ := he
    rw [hQ start ⟨others, he.symm⟩]
    exact h.2 start others he hne

theorem Shortest.singleton {Q : List Char → Prop} {ch : Char} (after : List Char)
    (hch : Q [ch]) (hnil : ¬ Q []) : Shortest Q [ch] after := by
  refine ⟨.inl hch, fun start others he hne => ?_⟩
  obtain _ | ⟨ch', start⟩ := start
  · exact hnil
  · rw [List.cons_append, List.cons.injEq] at he
    exact absurd (List.append_eq_nil_iff.1 he.2.symm).2 hne

/-! ## The texts of each kind -/

/-- Space, tab, line feed, vertical tab and carriage return. -/
def blanks : List Char := [' ', '\t', '\n', '\x0b', '\r']

def BlankRun (run _after : List Char) : Prop := ∀ ch ∈ run, ch ∈ blanks

/-- Characters within one line. -/
def LineRun (run _after : List Char) : Prop := ∀ ch ∈ run, ch ≠ '\r' ∧ ch ≠ '\n'

/-- Neither blanks nor braces, and no slash that a slash or a star follows, be it in the run or as
the first character behind it. -/
def WordRun (run after : List Char) : Prop :=
  (∀ ch ∈ run, ch ∉ blanks ∧ ch ≠ '{' ∧ ch ≠ '}') ∧
    ∀ before behind, run = before ++ '/' :: behind →
      (behind ++ after).head? ≠ some '/' ∧ (behind ++ after).head? ≠ some '*'

/-- A comment with both delimiters, which do not overlap. -/
def ClosedComment (text : List Char) : Prop :=
  ∃ inner, text = '/' :: '*' :: (inner ++ ['*', '/'])

/-- The characters outside quotes. A quote starts a quoted part, and the next one ends it. -/
def unquoted (quoted : Bool) : List Char → List Char
  | [] => []
  | ch :: rest =>
    if ch = '"' then unquoted (!quoted) rest
    else if quoted then unquoted quoted rest
    else ch :: unquoted quoted rest

/-- As many opening as closing braces outside quotes. -/
def Balanced (text : List Char) : Prop :=
  (unquoted false text).count '{' = (unquoted false text).count '}'

def ClosedBlock (text : List Char) : Prop :=
  text ≠ [] ∧ Balanced text

/-- A token with this text may stand in front of `after`. -/
def Fits (kind : TokenKind) (text after : List Char) : Prop :=
  match kind with
  | .whitespace => Longest BlankRun text after
  | .lineComment => ∃ body, text = '/' :: '/' :: body ∧ Longest LineRun body after
  | .blockComment => (∃ body, text = '/' :: '*' :: body) ∧ Shortest ClosedComment text after
  | .bracedBlock => (∃ body, text = '{' :: body) ∧ Shortest ClosedBlock text after
  | .word => text = ['}'] ∨ text ≠ [] ∧ Longest WordRun text after

end Grammar

/-- Every token fits in front of what the tokens behind it make up. -/
def Grammatical (tokens : List Token) : Prop :=
  ∀ before token later, tokens = before ++ token :: later →
    Grammar.Fits token.kind token.chars (later.flatMap Token.chars)

/-! ## Runs of the automaton -/

namespace Grammar

/-- No character of the run stops the scan. -/
def RunOf (stop : Char → Option Char → Bool) (run after : List Char) : Prop :=
  ∀ before ch behind, run = before ++ ch :: behind → stop ch (behind ++ after).head? = false

theorem runOf_nil (stop : Char → Option Char → Bool) (after : List Char) :
    RunOf stop [] after := by
  intro before ch behind h
  simp at h

theorem RunOf.cons {stop : Char → Option Char → Bool} {ch : Char} {run after : List Char}
    (hch : stop ch (run ++ after).head? = false) (h : RunOf stop run after) :
    RunOf stop (ch :: run) after := by
  intro before ch' behind he
  rcases List.cons_eq_append_iff.1 he with ⟨rfl, hb⟩ | ⟨before, rfl, hb⟩
  · obtain ⟨rfl, rfl⟩ := List.cons.inj hb
    exact hch
  · exact h before ch' behind hb

theorem RunOf.tail {stop : Char → Option Char → Bool} {ch : Char} {run after : List Char}
    (h : RunOf stop (ch :: run) after) : RunOf stop run after := by
  intro before ch' behind he
  apply h (ch :: before) ch' behind
  rw [he, List.cons_append]

/-- A longest run ends at the first character that stops the scan. -/
theorem longest_of_stop {stop : Char → Option Char → Bool} {ch : Char} {rest : List Char}
    (hch : stop ch rest.head? = true) : Longest (RunOf stop) [] (ch :: rest) := by
  refine ⟨runOf_nil stop _, fun more others he hrun => ?_⟩
  obtain _ | ⟨ch', more⟩ := more
  · rfl
  · rw [List.cons_append, List.cons.injEq] at he
    obtain ⟨rfl, rfl⟩ := he
    have := hrun [] ch more rfl
    simp_all

theorem Longest.runOf_cons {stop : Char → Option Char → Bool} {ch : Char}
    {run after : List Char} (hch : stop ch (run ++ after).head? = false)
    (h : Longest (RunOf stop) run after) : Longest (RunOf stop) (ch :: run) after :=
  ⟨h.1.cons hch, fun more rest he hrun => h.2 more rest he hrun.tail⟩

theorem mem_blanks_iff {ch : Char} : ch ∈ blanks ↔ Text.isBlank ch = true := by
  simp [blanks, Text.isBlank, or_assoc]

theorem blankRun_eq : BlankRun = RunOf fun ch _ => !Text.isBlank ch := by
  ext run after
  constructor
  · intro h before ch behind he
    simpa [mem_blanks_iff] using h ch (by simp [he])
  · intro h ch hch
    obtain ⟨before, behind, rfl⟩ := List.append_of_mem hch
    simpa [mem_blanks_iff] using h before ch behind rfl

theorem lineRun_eq : LineRun = RunOf fun ch _ => Text.isLineEnd ch := by
  ext run after
  constructor
  · intro h before ch behind he
    simpa [Text.isLineEnd] using h ch (by simp [he])
  · intro h ch hch
    obtain ⟨before, behind, rfl⟩ := List.append_of_mem hch
    simpa [Text.isLineEnd] using h before ch behind rfl

theorem not_endsWord_iff {ch : Char} {peek : Option Char} :
    Mode.endsWord ch peek = false ↔
      (ch ∉ blanks ∧ ch ≠ '{' ∧ ch ≠ '}') ∧
        (ch = '/' → peek ≠ some '/' ∧ peek ≠ some '*') := by
  rw [mem_blanks_iff, Mode.endsWord]
  grind

theorem wordRun_eq : WordRun = RunOf Mode.endsWord := by
  ext run after
  constructor
  · intro h before ch behind he
    rw [not_endsWord_iff]
    refine ⟨h.1 ch (by simp [he]), ?_⟩
    rintro rfl
    exact h.2 before behind he
  · intro h
    constructor
    · intro ch hch
      obtain ⟨before, behind, rfl⟩ := List.append_of_mem hch
      exact (not_endsWord_iff.1 (h before ch behind rfl)).1
    · intro before behind he
      exact (not_endsWord_iff.1 (h before '/' behind he)).2 rfl

end Grammar

open Grammar

namespace Mode

/-- A mode that a scan stays in until a character stops it takes a longest run. -/
theorem cut_loop {mode : Mode} {stop : Char → Option Char → Bool}
    (hm : ∀ ch peek, mode.move ch peek = if stop ch peek then .leave else .take mode)
    (chars : List Char) :
    (mode.cut chars).mode = mode ∧
      Longest (RunOf stop) (mode.cut chars).taken (mode.cut chars).left := by
  induction chars with
  | nil =>
    refine ⟨rfl, runOf_nil stop _, fun more rest he _ => ?_⟩
    exact (List.append_eq_nil_iff.1 he.symm).1
  | cons ch rest ih =>
    cases hs : stop ch rest.head? with
    | true =>
      rw [cut_leave (by rw [hm, hs]; rfl)]
      exact ⟨rfl, longest_of_stop hs⟩
    | false =>
      rw [cut_take (by rw [hm, hs]; rfl)]
      refine ⟨ih.1, ih.2.runOf_cons ?_⟩
      rw [taken_append_left]
      exact hs

theorem cut_blank (chars : List Char) :
    (blank.cut chars).mode = blank ∧
      Longest BlankRun (blank.cut chars).taken (blank.cut chars).left := by
  rw [blankRun_eq]
  refine cut_loop (fun ch peek => ?_) chars
  cases h : Text.isBlank ch <;> simp [move, h]

theorem cut_line (chars : List Char) :
    (line.cut chars).mode = line ∧
      Longest LineRun (line.cut chars).taken (line.cut chars).left := by
  rw [lineRun_eq]
  exact cut_loop (fun ch peek => rfl) chars

theorem cut_word (chars : List Char) :
    (word.cut chars).mode = word ∧
      Longest WordRun (word.cut chars).taken (word.cut chars).left := by
  rw [wordRun_eq]
  exact cut_loop (fun ch peek => rfl) chars

end Mode

/-! ## Comments and blocks of the automaton -/

namespace Grammar

/-- What is looked for behind the opening of a comment. -/
def EndsClosing (text : List Char) : Prop :=
  ∃ inner, text = inner ++ ['*', '/']

theorem endsClosing_cons_iff {ch : Char} {start : List Char}
    (h : ¬ (ch = '*' ∧ start = ['/'])) : EndsClosing (ch :: start) ↔ EndsClosing start := by
  constructor
  · rintro ⟨inner, he⟩
    obtain _ | ⟨ch', inner⟩ := inner
    · exact absurd (List.cons.inj he) h
    · exact ⟨inner, (List.cons.inj he).2⟩
  · rintro ⟨inner, rfl⟩
    exact ⟨ch :: inner, rfl⟩

theorem not_endsClosing_nil : ¬ EndsClosing [] := by
  rintro ⟨inner, he⟩
  simp at he

/-- The braces of a text close `depth` braces that are open in front of it. -/
def Closes (depth : ℕ) (quoted : Bool) (text : List Char) : Prop :=
  depth + (unquoted quoted text).count '{' = (unquoted quoted text).count '}'

theorem not_closes_nil {depth : ℕ} (hd : 0 < depth) (quoted : Bool) : ¬ Closes depth quoted [] := by
  intro h
  simp [Closes, unquoted] at h
  omega

theorem closes_quote_iff (depth : ℕ) (quoted : Bool) (text : List Char) :
    Closes depth quoted ('"' :: text) ↔ Closes depth (!quoted) text := by
  simp [Closes, unquoted]

theorem closes_quoted_iff (depth : ℕ) {ch : Char} (hq : ch ≠ '"') (text : List Char) :
    Closes depth true (ch :: text) ↔ Closes depth true text := by
  simp [Closes, unquoted, hq]

theorem closes_open_iff (depth : ℕ) (text : List Char) :
    Closes depth false ('{' :: text) ↔ Closes (depth + 1) false text := by
  simp [Closes, unquoted]
  omega

theorem closes_close_iff (depth : ℕ) (text : List Char) :
    Closes (depth + 1) false ('}' :: text) ↔ Closes depth false text := by
  simp [Closes, unquoted]
  omega

theorem closes_other_iff (depth : ℕ) {ch : Char} (hq : ch ≠ '"') (ho : ch ≠ '{') (hc : ch ≠ '}')
    (text : List Char) : Closes depth false (ch :: text) ↔ Closes depth false text := by
  simp [Closes, unquoted, hq, ho, hc]

end Grammar

namespace Mode

theorem cut_comment (chars : List Char) :
    (comment.cut chars).mode.kind = .blockComment ∧
      Shortest EndsClosing (comment.cut chars).taken (comment.cut chars).left := by
  induction chars with
  | nil => exact ⟨rfl, .of_nil _⟩
  | cons ch rest ih =>
    by_cases h : ch = '*' ∧ rest.head? = some '/'
    · obtain ⟨rfl, hr⟩ := h
      obtain ⟨others, rfl⟩ : ∃ others, rest = '/' :: others := List.head?_eq_some_iff.1 hr
      have hm : comment.move '*' (List.head? ('/' :: others)) = .take commentClosing := rfl
      rw [cut_take hm, cut_finish rfl]
      have hclosed : EndsClosing ['*', '/'] := ⟨[], rfl⟩
      refine ⟨rfl, .inl hclosed, fun start behind he hne => ?_⟩
      rintro ⟨inner, rfl⟩
      have := congrArg List.length he
      have := List.length_pos_iff.2 hne
      simp at *
      omega
    · have hm : comment.move ch rest.head? = .take comment := if_neg h
      rw [cut_take hm]
      refine ⟨ih.1, ih.2.cons (fun start hs => endsClosing_cons_iff ?_) not_endsClosing_nil⟩
      rintro ⟨rfl, rfl⟩
      obtain ⟨others, rfl⟩ := hs.trans ⟨_, taken_append_left comment rest⟩
      exact h ⟨rfl, rfl⟩

/-- A character of a block closes it, or changes how many braces are to be closed and nothing
else. -/
theorem block_move_cases {depth : ℕ} (hd : 0 < depth) (quoted : Bool) (ch : Char)
    (peek : Option Char) :
    ((block depth quoted).move ch peek = .finish ∧ Closes depth quoted [ch]) ∨
      ∃ depth' quoted', 0 < depth' ∧
        (block depth quoted).move ch peek = .take (block depth' quoted') ∧
        ∀ text, Closes depth quoted (ch :: text) ↔ Closes depth' quoted' text := by
  by_cases hq : ch = '"'
  · subst hq
    exact .inr ⟨depth, !quoted, hd, rfl, closes_quote_iff depth quoted⟩
  cases quoted with
  | true =>
    exact .inr ⟨depth, true, hd, by simp [move, inBlock, hq], closes_quoted_iff depth hq⟩
  | false =>
    by_cases ho : ch = '{'
    · subst ho
      exact .inr ⟨depth + 1, false, Nat.succ_pos depth, rfl, closes_open_iff depth⟩
    by_cases hc : ch = '}'
    · subst hc
      obtain ⟨d, rfl⟩ : ∃ d, depth = d + 1 := ⟨depth - 1, by omega⟩
      obtain rfl | hd' := Nat.eq_zero_or_pos d
      · exact .inl ⟨rfl, rfl⟩
      · refine .inr ⟨d, false, hd', ?_, closes_close_iff d⟩
        simp [move, inBlock, show ¬ d + 1 ≤ 1 by omega]
    · exact .inr ⟨depth, false, hd, by simp [move, inBlock, hq, ho, hc],
        closes_other_iff depth hq ho hc⟩

theorem cut_block {depth : ℕ} (hd : 0 < depth) (quoted : Bool) (chars : List Char) :
    ((block depth quoted).cut chars).mode.kind = .bracedBlock ∧
      Shortest (Closes depth quoted) ((block depth quoted).cut chars).taken
        ((block depth quoted).cut chars).left := by
  induction chars generalizing depth quoted with
  | nil => exact ⟨rfl, .of_nil _⟩
  | cons ch rest ih =>
    rcases block_move_cases hd quoted ch rest.head? with
      ⟨hm, hclosed⟩ | ⟨depth', quoted', hd', hm, hcloses⟩
    · rw [cut_finish hm]
      exact ⟨rfl, .singleton _ hclosed (not_closes_nil hd quoted)⟩
    · rw [cut_take hm]
      obtain ⟨hkind, hshortest⟩ := ih hd' quoted'
      exact ⟨hkind, hshortest.cons (fun start _ => hcloses start) (not_closes_nil hd quoted)⟩

end Mode

/-! ## The first token -/

namespace Grammar

theorem Longest.blank_cons {ch : Char} {run after : List Char} (hch : ch ∈ blanks)
    (h : Longest BlankRun run after) : Longest BlankRun (ch :: run) after := by
  rw [blankRun_eq] at h ⊢
  exact h.runOf_cons (by simpa [mem_blanks_iff] using hch)

theorem Longest.word_cons {ch : Char} {run after : List Char}
    (hch : Mode.endsWord ch (run ++ after).head? = false)
    (h : Longest WordRun run after) : Longest WordRun (ch :: run) after := by
  rw [wordRun_eq] at h ⊢
  exact h.runOf_cons hch

theorem closedComment_iff (text : List Char) :
    ClosedComment ('/' :: '*' :: text) ↔ EndsClosing text := by
  simp [ClosedComment, EndsClosing]

/-- Behind its opening a comment is closed by a star and a slash of their own. -/
theorem Shortest.closedComment {text after : List Char} (h : Shortest EndsClosing text after) :
    Shortest ClosedComment ('/' :: '*' :: text) after := by
  have hstar : Shortest (fun text => ClosedComment ('/' :: text)) ('*' :: text) after := by
    refine h.cons (fun start _ => closedComment_iff start) ?_
    rintro ⟨inner, he⟩
    simp at he
  refine hstar.cons (fun start _ => Iff.rfl) ?_
  rintro ⟨inner, he⟩
  simp at he

theorem closedBlock_iff (text : List Char) : ClosedBlock ('{' :: text) ↔ Closes 1 false text := by
  simp [ClosedBlock, Balanced, Closes, unquoted]
  omega

theorem Shortest.closedBlock {text after : List Char} (h : Shortest (Closes 1 false) text after) :
    Shortest ClosedBlock ('{' :: text) after :=
  h.cons (fun start _ => closedBlock_iff start) fun hnil => hnil.1 rfl

/-- The automaton takes a text that fits in front of what it leaves. -/
theorem fits_cut_start (ch : Char) (rest : List Char) :
    Fits (Mode.start.cut (ch :: rest)).mode.kind (Mode.start.cut (ch :: rest)).taken
      (Mode.start.cut (ch :: rest)).left := by
  by_cases hb : Text.isBlank ch = true
  · have hm : Mode.start.move ch rest.head? = .take .blank := by
      rw [Mode.move, Mode.first, if_pos hb]
    have h := Mode.cut_blank rest
    rw [Mode.cut_take hm, Cut.mode_push, h.1]
    exact h.2.blank_cons (mem_blanks_iff.2 hb)
  by_cases ho : ch = '{'
  · subst ho
    have hm : Mode.start.move '{' rest.head? = .take (.block 1 false) := rfl
    have h := Mode.cut_block one_pos false rest
    rw [Mode.cut_take hm, Cut.mode_push, h.1]
    exact ⟨⟨_, rfl⟩, h.2.closedBlock⟩
  by_cases hs : ch = '/' ∧ rest.head? = some '*'
  · obtain ⟨rfl, hr⟩ := hs
    obtain ⟨others, rfl⟩ : ∃ others, rest = '*' :: others := List.head?_eq_some_iff.1 hr
    have hm : Mode.start.move '/' (List.head? ('*' :: others)) = .take .commentOpening := rfl
    have hm' : Mode.commentOpening.move '*' others.head? = .take .comment := rfl
    have h := Mode.cut_comment others
    rw [Mode.cut_take hm, Mode.cut_take hm', Cut.mode_push, Cut.mode_push, h.1]
    exact ⟨⟨_, rfl⟩, h.2.closedComment⟩
  by_cases hl : ch = '/' ∧ rest.head? = some '/'
  · obtain ⟨rfl, hr⟩ := hl
    obtain ⟨others, rfl⟩ : ∃ others, rest = '/' :: others := List.head?_eq_some_iff.1 hr
    have hm : Mode.start.move '/' (List.head? ('/' :: others)) = .take .lineOpening := rfl
    have hm' : Mode.lineOpening.move '/' others.head? = .take .line := rfl
    have h := Mode.cut_line others
    rw [Mode.cut_take hm, Mode.cut_take hm', Cut.mode_push, Cut.mode_push, h.1]
    exact ⟨_, rfl, h.2⟩
  by_cases hc : ch = '}'
  · subst hc
    have hm : Mode.start.move '}' rest.head? = .finish := rfl
    rw [Mode.cut_finish hm]
    exact .inl rfl
  · have hm : Mode.start.move ch rest.head? = .take .word := by
      simp [Mode.move, Mode.first, hb, ho, hs, hl, hc]
    have h := Mode.cut_word rest
    rw [Mode.cut_take hm, Cut.mode_push, h.1]
    refine .inr ⟨List.cons_ne_nil _ _, h.2.word_cons ?_⟩
    rw [Mode.taken_append_left, not_endsWord_iff, mem_blanks_iff]
    refine ⟨⟨hb, ho, hc⟩, ?_⟩
    rintro rfl
    exact ⟨fun h => hl ⟨rfl, h⟩, fun h => hs ⟨rfl, h⟩⟩

/-- The kind of the token that starts with `ch`, when `peek` is the character behind it. -/
def kindOf (ch : Char) (peek : Option Char) : TokenKind :=
  if ch ∈ blanks then .whitespace
  else if ch = '{' then .bracedBlock
  else if ch = '/' ∧ peek = some '*' then .blockComment
  else if ch = '/' ∧ peek = some '/' then .lineComment
  else .word

theorem Fits.kind_eq {kind : TokenKind} {ch : Char} {body after : List Char}
    (h : Fits kind (ch :: body) after) : kind = kindOf ch (body ++ after).head? := by
  cases kind with
  | whitespace =>
    have hch : ch ∈ blanks := h.1 ch List.mem_cons_self
    rw [kindOf, if_pos hch]
  | bracedBlock =>
    obtain ⟨⟨body, he⟩, -⟩ := h
    obtain ⟨rfl, -⟩ := List.cons.inj he
    rfl
  | blockComment =>
    obtain ⟨⟨body, he⟩, -⟩ := h
    obtain ⟨rfl, rfl⟩ := List.cons.inj he
    rfl
  | lineComment =>
    obtain ⟨body, he, -⟩ := h
    obtain ⟨rfl, rfl⟩ := List.cons.inj he
    rfl
  | word =>
    rcases h with he | ⟨-, h, -⟩
    · obtain ⟨rfl, rfl⟩ := List.cons.inj he
      rfl
    · obtain ⟨hb, ho, -⟩ := h.1 ch List.mem_cons_self
      rw [kindOf, if_neg hb, if_neg ho, if_neg, if_neg]
      · rintro ⟨rfl, hp⟩
        exact (h.2 [] body rfl).1 hp
      · rintro ⟨rfl, hp⟩
        exact (h.2 [] body rfl).2 hp

theorem not_wordRun_closing {run after : List Char} : ¬ WordRun ('}' :: run) after :=
  fun h => (h.1 '}' List.mem_cons_self).2.2 rfl

theorem Fits.text_unique {kind : TokenKind} {text text' after after' : List Char}
    (h : Fits kind text after) (h' : Fits kind text' after')
    (he : text ++ after = text' ++ after') : text = text' := by
  cases kind with
  | whitespace => exact h.unique h' he
  | bracedBlock => exact h.2.unique h'.2 he
  | blockComment => exact h.2.unique h'.2 he
  | lineComment =>
    obtain ⟨body, rfl, h⟩ := h
    obtain ⟨body', rfl, h'⟩ := h'
    rw [h.unique h' (by simpa using he)]
  | word =>
    rcases h with rfl | ⟨hne, h⟩ <;> rcases h' with rfl | ⟨hne', h'⟩
    · rfl
    · obtain ⟨ch, run, rfl⟩ := List.exists_cons_of_ne_nil hne'
      obtain ⟨rfl, -⟩ := List.cons.inj he
      exact absurd h'.1 not_wordRun_closing
    · obtain ⟨ch, run, rfl⟩ := List.exists_cons_of_ne_nil hne
      obtain ⟨rfl, -⟩ := List.cons.inj he
      exact absurd h.1 not_wordRun_closing
    · exact h.unique h' he

/-- Only one token fits at the start of a text. -/
theorem Fits.unique {kind kind' : TokenKind} {text text' after after' : List Char}
    (h : Fits kind text after) (h' : Fits kind' text' after') (hne : text ≠ []) (hne' : text' ≠ [])
    (he : text ++ after = text' ++ after') : kind = kind' ∧ text = text' ∧ after = after' := by
  obtain ⟨ch, body, rfl⟩ := List.exists_cons_of_ne_nil hne
  obtain ⟨ch', body', rfl⟩ := List.exists_cons_of_ne_nil hne'
  obtain ⟨rfl, hr⟩ := List.cons.inj he
  obtain rfl : kind = kind' := by rw [h.kind_eq, h'.kind_eq, ← List.append_eq, hr, List.append_eq]
  have ht := h.text_unique h' he
  rw [ht] at he
  exact ⟨rfl, ht, List.append_cancel_left he⟩

end Grammar

/-! ## All tokens -/

theorem grammatical_nil : Grammatical [] := by
  intro before token later he
  simp at he

theorem grammatical_cons_iff {token : Token} {later : List Token} :
    Grammatical (token :: later) ↔
      Fits token.kind token.chars (later.flatMap Token.chars) ∧ Grammatical later := by
  constructor
  · intro h
    refine ⟨h [] token later rfl, ?_⟩
    intro before token' later' he
    apply h (token :: before) token' later'
    rw [he, List.cons_append]
  · rintro ⟨hfit, h⟩ before token' later' he
    rcases List.cons_eq_append_iff.1 he with ⟨rfl, hc⟩ | ⟨before, rfl, hc⟩
    · obtain ⟨rfl, rfl⟩ := List.cons.inj hc
      exact hfit
    · exact h before token' later' hc

theorem Token.eq_of_chars {token token' : Token} (hk : token.kind = token'.kind)
    (hc : token.chars = token'.chars) : token = token' := by
  obtain ⟨kind, text⟩ := token
  obtain ⟨kind', text'⟩ := token'
  obtain rfl : kind = kind' := hk
  obtain rfl : text = text' := String.toList_injective hc
  rfl

/-- A text has only one list of tokens that fit. -/
theorem Grammatical.unique {tokens tokens' : List Token} (h : Grammatical tokens)
    (h' : Grammatical tokens') (hne : ∀ token ∈ tokens, token.chars ≠ [])
    (hne' : ∀ token ∈ tokens', token.chars ≠ [])
    (he : tokens.flatMap Token.chars = tokens'.flatMap Token.chars) : tokens = tokens' := by
  induction tokens generalizing tokens' with
  | nil =>
    obtain _ | ⟨token', later'⟩ := tokens'
    · rfl
    · rw [List.flatMap_nil, List.flatMap_cons] at he
      exact absurd (List.append_eq_nil_iff.1 he.symm).1 (hne' token' List.mem_cons_self)
  | cons token later ih =>
    obtain _ | ⟨token', later'⟩ := tokens'
    · rw [List.flatMap_nil, List.flatMap_cons] at he
      exact absurd (List.append_eq_nil_iff.1 he).1 (hne token List.mem_cons_self)
    · rw [grammatical_cons_iff] at h h'
      rw [List.flatMap_cons, List.flatMap_cons] at he
      obtain ⟨hk, ht, hl⟩ :=
        h.1.unique h'.1 (hne _ List.mem_cons_self) (hne' _ List.mem_cons_self) he
      rw [ih h.2 h'.2 (fun t ht => hne t (List.mem_cons_of_mem _ ht))
        (fun t ht => hne' t (List.mem_cons_of_mem _ ht)) hl, Token.eq_of_chars hk ht]

@[simp] theorem Cut.chars_lexeme (k : Cut) (line : ℕ) : (k.lexeme line).token.chars = k.taken :=
  String.toList_ofList

/-- The tokens that the tokenizer cuts make up the text and fit, and none is empty. -/
theorem lexemesFrom_spec (line : ℕ) (chars : List Char) :
    ((lexemesFrom line chars).map Lexeme.token).flatMap Token.chars = chars ∧
      (∀ token ∈ (lexemesFrom line chars).map Lexeme.token, token.chars ≠ []) ∧
        Grammatical ((lexemesFrom line chars).map Lexeme.token) := by
  fun_induction lexemesFrom line chars with
  | case1 => exact ⟨rfl, by simp, grammatical_nil⟩
  | case2 line ch rest k =>
    rename_i ih
    obtain ⟨hconcat, hne, hgrammar⟩ := ih
    have happ : k.taken ++ k.left = ch :: rest := Mode.taken_append_left Mode.start (ch :: rest)
    rw [List.map_cons, grammatical_cons_iff, List.flatMap_cons, List.forall_mem_cons]
    rw [hconcat, Cut.chars_lexeme]
    exact ⟨happ, ⟨Mode.cut_start_taken_ne_nil ch rest, hne⟩, fits_cut_start ch rest, hgrammar⟩

theorem tokenize_eq (text : String) :
    tokenize text = (lexemesFrom 1 text.toList).map Lexeme.token := by
  rw [tokenize, Cursor.lexemes_of_shows (TextCursor.shows_ofString text)]

theorem tokenize_spec (text : String) :
    (tokenize text).flatMap Token.chars = text.toList ∧
      (∀ token ∈ tokenize text, token.chars ≠ []) ∧ Grammatical (tokenize text) := by
  rw [tokenize_eq]
  exact lexemesFrom_spec 1 text.toList

theorem Token.chars_ne_nil_iff {token : Token} : token.chars ≠ [] ↔ token.text ≠ "" := by
  rw [Token.chars, Ne, String.toList_eq_nil_iff]

theorem Token.concat_eq_iff {tokens : List Token} {text : String} :
    Token.concat tokens = text ↔ tokens.flatMap Token.chars = text.toList := by
  rw [← String.toList_inj, Token.concat, String.toList_join, List.flatMap_map]
  rfl

/-- Tokens that are not empty, make up a text and fit are those of the text. -/
theorem eq_tokenize_of_grammatical {text : String} {tokens : List Token}
    (hne : ∀ token ∈ tokens, token.text ≠ "") (hconcat : Token.concat tokens = text)
    (hgrammar : Grammatical tokens) : tokens = tokenize text := by
  obtain ⟨hconcat', hne', hgrammar'⟩ := tokenize_spec text
  rw [Token.concat_eq_iff] at hconcat
  exact hgrammar.unique hgrammar' (fun token ht => Token.chars_ne_nil_iff.2 (hne token ht)) hne'
    (hconcat.trans hconcat'.symm)

/-- The tokens of a text are the only ones that are not empty, make up the text, and each fit where
they stand. -/
theorem eq_tokenize_iff (text : String) (tokens : List Token) :
    tokens = tokenize text ↔
      (∀ token ∈ tokens, token.text ≠ "") ∧ Token.concat tokens = text ∧ Grammatical tokens := by
  obtain ⟨hconcat, hne, hgrammar⟩ := lexemesFrom_spec 1 text.toList
  constructor
  · rintro rfl
    rw [tokenize_eq, Token.concat_eq_iff]
    exact ⟨fun token ht => Token.chars_ne_nil_iff.1 (hne token ht), hconcat, hgrammar⟩
  · rintro ⟨hne', hconcat', hgrammar'⟩
    exact eq_tokenize_of_grammatical hne' hconcat' hgrammar'

end AssetDecl
