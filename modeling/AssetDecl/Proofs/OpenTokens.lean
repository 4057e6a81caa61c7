import AssetDecl.Proofs.TokenLookahead

/-!
# Open tokens

A comment or a block that is not closed is open, and its text says so (`Token.openProblem`). The
tokenizer reports just the open tokens (`problem_of_mem_lexemesFrom`), of which a text has one at
most, at its end (`later_eq_nil_of_open`).
-/

namespace AssetDecl

namespace Grammar

variable {text : List Char}

instance : Decidable (EndsClosing text) :=
  decidable_of_iff (['*', '/'] <:+ text)
    ⟨fun ⟨inner, he⟩ => ⟨inner, he.symm⟩, fun ⟨inner, he⟩ => ⟨inner, he.symm⟩⟩

instance : Decidable (ClosedComment text) :=
  decidable_of_iff (text.take 2 = ['/', '*'] ∧ EndsClosing (text.drop 2)) <| by
    constructor
    · rintro ⟨htake, hclosing⟩
      rwa [← List.take_append_drop 2 text, htake, List.cons_append, List.singleton_append,
        closedComment_iff]
    · rintro ⟨inner, rfl⟩
      exact ⟨rfl, inner, rfl⟩

instance (depth : ℕ) (quoted : Bool) : Decidable (Closes depth quoted text) :=
  inferInstanceAs (Decidable (_ + List.count _ _ = List.count _ _))

instance : Decidable (ClosedBlock text) :=
  inferInstanceAs (Decidable (_ ≠ [] ∧ List.count _ _ = List.count _ _))

end Grammar

open Grammar

/-- What is wrong with a comment or a block that is not closed. -/
def Token.openProblem (token : Token) : Option Problem :=
  match token.kind with
  | .blockComment => if ClosedComment token.chars then none else some .unterminatedComment
  | .bracedBlock => if ClosedBlock token.chars then none else some .unterminatedBlock
  | .whitespace | .word | .lineComment => none

/-! ## What the automaton reports -/

@[simp] theorem Cut.problem_lexeme_push (ch : Char) (k : Cut) (line : ℕ) :
    ((k.push ch).lexeme line).problem = (k.lexeme line).problem := rfl

namespace Mode

theorem problem_cut_comment (chars : List Char) (line : ℕ) :
    ((comment.cut chars).lexeme line).problem =
      if EndsClosing (comment.cut chars).taken then none else some .unterminatedComment := by
  induction chars with
  | nil => exact (if_neg not_endsClosing_nil).symm
  | cons ch rest ih =>
    by_cases h : ch = '*' ∧ rest.head? = some '/'
    · obtain ⟨rfl, hr⟩ := h
      obtain ⟨others, rfl⟩ : ∃ others, rest = '/' :: others := List.head?_eq_some_iff.1 hr
      have hm : comment.move '*' (List.head? ('/' :: others)) = .take commentClosing := rfl
      rw [cut_take hm, cut_finish rfl, if_pos]
      · rfl
      · exact ⟨[], rfl⟩
    · have hm : comment.move ch rest.head? = .take comment := if_neg h
      rw [cut_take hm, Cut.problem_lexeme_push, ih, Cut.taken_push]
      refine if_congr (endsClosing_cons_iff ?_).symm rfl rfl
      rintro ⟨rfl, hslash⟩
      have happ := taken_append_left comment rest
      rw [hslash] at happ
      exact h ⟨rfl, by rw [← happ]; rfl⟩

theorem problem_cut_block {depth : ℕ} (hd : 0 < depth) (quoted : Bool) (chars : List Char)
    (line : ℕ) :
    (((block depth quoted).cut chars).lexeme line).problem =
      if Closes depth quoted ((block depth quoted).cut chars).taken then none
      else some .unterminatedBlock := by
  induction chars generalizing depth quoted with
  | nil => exact (if_neg (not_closes_nil hd quoted)).symm
  | cons ch rest ih =>
    rcases block_move_cases hd quoted ch rest.head? with
      ⟨hm, hclosed⟩ | ⟨depth', quoted', hd', hm, hcloses⟩
    · rw [cut_finish hm, if_pos hclosed]
      rfl
    · rw [cut_take hm, Cut.problem_lexeme_push, ih hd' quoted', Cut.taken_push]
      exact if_congr (hcloses _).symm rfl rfl

/-- Outside comments and blocks the end of the input is nothing wrong. -/
theorem problemAtEnd_eq_none {mode : Mode} (hcomment : mode.kind ≠ .blockComment)
    (hblock : mode.kind ≠ .bracedBlock) : mode.problemAtEnd = none := by
  cases mode <;> simp_all [kind, problemAtEnd]

end Mode

namespace Token

variable {token : Token}

theorem openProblem_of_blockComment (hkind : token.kind = .blockComment) :
    token.openProblem =
      if ClosedComment token.chars then none else some .unterminatedComment := by
  rw [openProblem, hkind]

theorem openProblem_of_bracedBlock (hkind : token.kind = .bracedBlock) :
    token.openProblem = if ClosedBlock token.chars then none else some .unterminatedBlock := by
  rw [openProblem, hkind]

theorem openProblem_eq_none (hcomment : token.kind ≠ .blockComment)
    (hblock : token.kind ≠ .bracedBlock) : token.openProblem = none := by
  unfold openProblem
  cases hk : token.kind <;> simp_all

end Token

/-- The automaton reports a token if it is open. -/
theorem problem_cut_start (ch : Char) (rest : List Char) (line : ℕ) :
    ((Mode.start.cut (ch :: rest)).lexeme line).problem =
      ((Mode.start.cut (ch :: rest)).lexeme line).token.openProblem := by
  have hfits := fits_cut_start ch rest
  have happ := Mode.taken_append_left Mode.start (ch :: rest)
  by_cases hblock : (Mode.start.cut (ch :: rest)).mode.kind = .bracedBlock
  · rw [Token.openProblem_of_bracedBlock hblock, Cut.chars_lexeme]
    rw [hblock] at hfits
    obtain ⟨⟨body, hbody⟩, -⟩ := hfits
    rw [hbody] at happ
    obtain ⟨rfl, -⟩ := List.cons.inj happ
    have hm : Mode.start.move '{' rest.head? = .take (.block 1 false) := rfl
    rw [Mode.cut_take hm, Cut.problem_lexeme_push, Mode.problem_cut_block one_pos, Cut.taken_push]
    exact if_congr (closedBlock_iff _).symm rfl rfl
  by_cases hcomment : (Mode.start.cut (ch :: rest)).mode.kind = .blockComment
  · rw [Token.openProblem_of_blockComment hcomment, Cut.chars_lexeme]
    rw [hcomment] at hfits
    obtain ⟨⟨body, hbody⟩, -⟩ := hfits
    rw [hbody] at happ
    obtain ⟨rfl, hrest⟩ := List.cons.inj happ
    obtain ⟨others, rfl⟩ : ∃ others, rest = '*' :: others := ⟨_, hrest.symm⟩
    have hm : Mode.start.move '/' (List.head? ('*' :: others)) = .take .commentOpening := rfl
    have hm' : Mode.commentOpening.move '*' others.head? = .take .comment := rfl
    rw [Mode.cut_take hm, Mode.cut_take hm', Cut.problem_lexeme_push, Cut.problem_lexeme_push,
      Mode.problem_cut_comment, Cut.taken_push, Cut.taken_push]
    exact if_congr (closedComment_iff _).symm rfl rfl
  · rw [Token.openProblem_eq_none hcomment hblock, Cut.lexeme,
      Mode.problemAtEnd_eq_none hcomment hblock, ite_self]

/-- The tokenizer reports the open tokens and no others. -/
theorem problem_of_mem_lexemesFrom {line : ℕ} {chars : List Char} {lexeme : Lexeme}
    (h : lexeme ∈ lexemesFrom line chars) : lexeme.problem = lexeme.token.openProblem := by
  fun_induction lexemesFrom line chars with
  | case1 => simp at h
  | case2 line ch rest k ih =>
    rcases List.mem_cons.1 h with rfl | h
    · exact problem_cut_start ch rest line
    · exact ih h

/-! ## Where open tokens stand -/

/-- Nothing stands behind an open token. -/
theorem Grammar.Fits.after_eq_nil_of_open {token : Token} {after : List Char}
    (h : Fits token.kind token.chars after) (hopen : token.openProblem ≠ none) : after = [] := by
  by_cases hblock : token.kind = .bracedBlock
  · rw [Token.openProblem_of_bracedBlock hblock] at hopen
    rw [hblock] at h
    exact h.2.1.resolve_left fun hclosed => hopen (if_pos hclosed)
  by_cases hcomment : token.kind = .blockComment
  · rw [Token.openProblem_of_blockComment hcomment] at hopen
    rw [hcomment] at h
    exact h.2.1.resolve_left fun hclosed => hopen (if_pos hclosed)
  · exact absurd (Token.openProblem_eq_none hcomment hblock) hopen

/-- Only the last token of a text can be open. -/
theorem later_eq_nil_of_open {text : String} {before later : List Token} {token : Token}
    (htokens : tokenize text = before ++ token :: later) (hopen : token.openProblem ≠ none) :
    later = [] := by
  obtain ⟨-, hne, hgrammar⟩ := tokenize_spec text
  have hfits := hgrammar before token later htokens
  refine eq_nil_of_flatMap_chars (fun other hother => hne other ?_)
    (hfits.after_eq_nil_of_open hopen)
  rw [htokens]
  exact List.mem_append_right _ (List.mem_cons_of_mem _ hother)

end AssetDecl
