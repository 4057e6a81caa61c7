import AssetDecl.Proofs.TokenLookahead

/-!
# Slices of the tokens of a text

Any run of neighbouring tokens of a text is all the tokens of what it makes up
(`tokenize_concat_of_slice`). Cutting a text in front of a token leaves the tokens behind the cut as
they are (`Grammatical.of_append`). Cutting it behind a token puts the end of the input where the
tokens before it have seen something else (`Grammatical.cut`). That makes a difference to a slash
only, and a slash alone is no token in front of what would make it start a comment
(`Grammar.Fits.endsWord_of_single`).
-/

namespace AssetDecl

namespace Grammar

variable {stop : Char → Option Char → Bool} {Q : List Char → Prop} {kind : TokenKind}
  {run text after more : List Char}

/-! ## The end of the input in place of more characters -/

theorem RunOf.concat {ch : Char} (h : RunOf stop run (ch :: after))
    (hch : stop ch after.head? = false) : RunOf stop (run ++ [ch]) after := by
  induction run with
  | nil => exact (runOf_nil stop after).cons hch
  | cons ch' run ih =>
    refine (ih h.tail).cons ?_
    rw [List.append_assoc, List.singleton_append]
    exact h [] ch' run rfl

/-- A run stays one when the text behind it is cut, if the end of the input stops no character that
would not be stopped anyway. -/
theorem RunOf.cut (hend : ∀ ch peek, stop ch peek = false → stop ch none = false)
    (h : RunOf stop run (after ++ more)) : RunOf stop run after := by
  intro before ch behind he
  have hch := h before ch behind he
  rw [← List.append_assoc] at hch
  cases hbehind : behind ++ after with
  | nil => exact hend ch _ hch
  | cons ch' others =>
    rw [hbehind] at hch
    exact hch

/-- A run that cannot go on cannot go on either when the text behind it is cut. Where a single
character is left there, it has to be stopped by the end of the input as by what is cut off. -/
theorem Longest.cut (hend : ∀ ch peek, stop ch peek = false → stop ch none = false)
    (hsingle : ∀ ch, after = [ch] → stop ch none = stop ch more.head?)
    (h : Longest (RunOf stop) run (after ++ more)) : Longest (RunOf stop) run after := by
  refine ⟨h.1.cut hend, fun longer rest he hlonger => ?_⟩
  obtain _ | ⟨ch, longer⟩ := longer
  · rfl
  -- The first character behind the run would have gone on with it in the uncut text as well.
  have hch : stop ch (longer ++ rest ++ more).head? = false := by
    have hcut : stop ch (longer ++ rest).head? = false := hlonger run ch longer rfl
    cases hrest : longer ++ rest with
    | nil =>
      rw [hrest] at hcut
      rw [List.nil_append, ← hsingle ch (by rw [he, List.cons_append, hrest])]
      exact hcut
    | cons ch' others =>
      rw [hrest] at hcut
      exact hcut
  have hafter : after ++ more = [ch] ++ (longer ++ rest ++ more) := by
    rw [he, List.cons_append, List.cons_append, List.singleton_append]
  have hrun := h.1
  rw [hafter, List.singleton_append] at hrun
  exact absurd (h.2 [ch] _ hafter (hrun.concat hch)) (List.cons_ne_nil _ _)

theorem Shortest.cut (h : Shortest Q text (after ++ more)) : Shortest Q text after :=
  ⟨h.1.imp_right fun hnil => (List.append_eq_nil_iff.1 hnil).1, h.2⟩

theorem endsWord_none_of_not {ch : Char} {peek : Option Char}
    (h : Mode.endsWord ch peek = false) : Mode.endsWord ch none = false := by
  rw [not_endsWord_iff] at h ⊢
  exact ⟨h.1, fun _ => ⟨by simp, by simp⟩⟩

/-- Whether a token of one character could belong to a word does not depend on what it stands in
front of: in front of a slash or a star a slash alone would be no token. -/
theorem Fits.endsWord_of_single {ch : Char} (h : Fits kind [ch] after) :
    Mode.endsWord ch none = Mode.endsWord ch after.head? := by
  cases kind with
  | whitespace =>
    have hch : Text.isBlank ch = true := mem_blanks_iff.1 (h.1 ch List.mem_cons_self)
    simp [Mode.endsWord, hch]
  | bracedBlock =>
    obtain ⟨⟨body, he⟩, -⟩ := h
    obtain ⟨rfl, -⟩ := List.cons.inj he
    rfl
  | blockComment =>
    obtain ⟨⟨body, he⟩, -⟩ := h
    simp at he
  | lineComment =>
    obtain ⟨body, he, -⟩ := h
    simp at he
  | word =>
    rcases h with he | ⟨-, hrun⟩
    · obtain ⟨rfl, -⟩ := List.cons.inj he
      rfl
    · rw [wordRun_eq] at hrun
      have hword : Mode.endsWord ch after.head? = false := hrun.1 [] ch [] rfl
      rw [hword, endsWord_none_of_not hword]

/-- A token still fits when the text behind it is cut. Where a single character is left there, it
has to be a word or none in front of the end of the input as in front of what is cut off. -/
theorem Fits.cut
    (hsingle : ∀ ch, after = [ch] → Mode.endsWord ch none = Mode.endsWord ch more.head?)
    (h : Fits kind text (after ++ more)) : Fits kind text after := by
  cases kind with
  | whitespace =>
    have h : Longest BlankRun text (after ++ more) := h
    show Longest BlankRun text after
    rw [blankRun_eq] at h ⊢
    exact h.cut (fun _ _ hch => hch) fun _ _ => rfl
  | bracedBlock => exact ⟨h.1, h.2.cut⟩
  | word =>
    refine h.imp_right fun hword => ⟨hword.1, ?_⟩
    have hrun := hword.2
    rw [wordRun_eq] at hrun ⊢
    exact hrun.cut (fun _ _ => endsWord_none_of_not) hsingle
  | lineComment =>
    obtain ⟨body, rfl, hrun⟩ := h
    refine ⟨body, rfl, ?_⟩
    rw [lineRun_eq] at hrun ⊢
    exact hrun.cut (fun _ _ hch => hch) fun _ _ => rfl
  | blockComment => exact ⟨h.1, h.2.cut⟩

end Grammar

/-! ## Slices -/

/-- Tokens of a text are grammatical up to any of them. -/
theorem Grammatical.cut {tokens later : List Token} (hne : ∀ token ∈ tokens, token.chars ≠ [])
    (h : Grammatical (tokens ++ later)) : Grammatical tokens := by
  induction tokens with
  | nil => exact grammatical_nil
  | cons token tokens ih =>
    obtain ⟨-, hne⟩ := List.forall_mem_cons.1 hne
    rw [List.cons_append, grammatical_cons_iff, List.flatMap_append] at h
    refine grammatical_cons_iff.2 ⟨h.1.cut fun ch hch => ?_, ih hne h.2⟩
    -- What makes up a single character is a single token.
    obtain _ | ⟨token', tokens⟩ := tokens
    · simp at hch
    obtain ⟨hne', hne⟩ := List.forall_mem_cons.1 hne
    rw [List.flatMap_cons] at hch
    rcases List.append_eq_singleton_iff.1 hch with ⟨hnil, -⟩ | ⟨hchars, hnil⟩
    · exact absurd hnil hne'
    · obtain rfl := eq_nil_of_flatMap_chars hne hnil
      have hfits := (grammatical_cons_iff.1 h.2).1
      rw [hchars] at hfits
      exact hfits.endsWord_of_single

/-- Any run of neighbouring tokens of a text is all the tokens of what it makes up, and so each
token is the only one of its own text. -/
theorem tokenize_concat_of_slice (text : String) :
    (∀ tokens, tokens <:+: tokenize text → tokenize (Token.concat tokens) = tokens) ∧
      ∀ token ∈ tokenize text, tokenize token.text = [token] := by
  obtain ⟨-, hne, hgrammar⟩ := tokenize_spec text
  have hslice : ∀ tokens, tokens <:+: tokenize text →
      tokenize (Token.concat tokens) = tokens := by
    rintro tokens ⟨before, later, he⟩
    have hne : ∀ token ∈ tokens, token.chars ≠ [] := fun token ht =>
      hne token (he ▸ List.mem_append_left _ (List.mem_append_right _ ht))
    rw [← he, List.append_assoc] at hgrammar
    exact (eq_tokenize_of_grammatical (fun token ht => Token.chars_ne_nil_iff.1 (hne token ht)) rfl
      (hgrammar.of_append.cut hne)).symm
  refine ⟨hslice, fun token ht => ?_⟩
  obtain ⟨before, later, he⟩ := List.append_of_mem ht
  have hconcat : Token.concat [token] = token.text :=
    Token.concat_eq_iff.2 (List.flatMap_singleton ..)
  rw [← hconcat]
  exact hslice [token] ⟨before, later, by rw [he, List.append_assoc]; rfl⟩

/-- A word that ends in a slash, a comment that looks closed too early, a stray brace in front of a
comment, and an open block. -/
theorem tokenize_concat_of_slice_slashes :
    let text := "\x7d//\n/a/ /*/ b */\x7d//c\r\n\x7b \"\x7d\""
    let tokens : List Token := [⟨.word, "/a/"⟩, ⟨.whitespace, " "⟩, ⟨.blockComment, "/*/ b */"⟩,
      ⟨.word, "\x7d"⟩, ⟨.lineComment, "//c"⟩]
    let block : Token := ⟨.bracedBlock, "\x7b \"\x7d\""⟩
    (tokens <:+: tokenize text ∧ tokenize (Token.concat tokens) = tokens) ∧
      block ∈ tokenize text ∧ tokenize block.text = [block] := by
  intro text tokens block
  have htokens : tokenize text =
      [⟨.word, "\x7d"⟩, ⟨.lineComment, "//"⟩, ⟨.whitespace, "\n"⟩] ++ tokens ++
        [⟨.whitespace, "\r\n"⟩, block] := by
    decide +kernel
  have hslice : tokens <:+: tokenize text := ⟨_, _, htokens.symm⟩
  have hblock : block ∈ tokenize text := by
    rw [htokens]
    simp
  exact ⟨⟨hslice, (tokenize_concat_of_slice text).1 tokens hslice⟩, hblock,
    (tokenize_concat_of_slice text).2 block hblock⟩

end AssetDecl
