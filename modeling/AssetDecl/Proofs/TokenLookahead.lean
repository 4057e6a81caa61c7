import AssetDecl.Proofs.TokenGrammar

/-!
# How far a token looks ahead

Whether a token fits depends on two characters behind it (`Grammar.Fits.of_take_eq`), and a closed
block fits in front of anything. Tokens up to a closed block are therefore the same ones wherever
they stand (`Grammatical.append_of_closed`).
-/

namespace AssetDecl

namespace Grammar

variable {stop : Char → Option Char → Bool} {Q : List Char → Prop} {kind : TokenKind}
  {run text after after' : List Char}

/-! ## Two characters -/

theorem RunOf.of_head?_eq (h : RunOf stop run after) (hhead : after.head? = after'.head?) :
    RunOf stop run after' := by
  intro before ch behind he
  have hch := h before ch behind he
  rwa [List.head?_append, hhead, ← List.head?_append] at hch

theorem RunOf.of_append {more : List Char} (h : RunOf stop (run ++ more) after) :
    RunOf stop run (more ++ after) := by
  intro before ch behind he
  have hch := h before ch (behind ++ more) (by rw [he, List.append_assoc, List.cons_append])
  rwa [List.append_assoc] at hch

theorem head?_eq_of_take_eq {n : ℕ} (h : after.take (n + 1) = after'.take (n + 1)) :
    after.head? = after'.head? := by
  simpa [List.head?_take] using congrArg List.head? h

/-- A run that cannot go on in front of a text goes on in front of no text with the same two first
characters. -/
theorem Longest.of_take_eq (h : Longest (RunOf stop) run after)
    (htake : after.take 2 = after'.take 2) : Longest (RunOf stop) run after' := by
  refine ⟨h.1.of_head?_eq (head?_eq_of_take_eq htake), fun more rest he hmore => ?_⟩
  obtain _ | ⟨ch, more⟩ := more
  · rfl
  obtain _ | ⟨ch', behind⟩ := after
  · simp [he] at htake
  have htake' : ch' = ch ∧ behind.take 1 = (more ++ rest).take 1 := by simpa [he] using htake
  obtain ⟨rfl, htake'⟩ := htake'
  -- One more character would already have made the run longer.
  have hone : RunOf stop (run ++ [ch']) (more ++ rest) := by
    apply RunOf.of_append
    rwa [List.append_assoc, List.singleton_append]
  have hnil := h.2 [ch'] behind rfl (hone.of_head?_eq (head?_eq_of_take_eq htake').symm)
  exact absurd hnil (List.cons_ne_nil _ _)

theorem Shortest.of_take_eq (h : Shortest Q text after) (htake : after.take 2 = after'.take 2) :
    Shortest Q text after' := by
  refine ⟨h.1.imp_right fun hnil => ?_, h.2⟩
  simpa [hnil] using htake.symm

/-- A token is judged by two characters behind it. -/
theorem Fits.of_take_eq (h : Fits kind text after) (htake : after.take 2 = after'.take 2) :
    Fits kind text after' := by
  cases kind with
  | whitespace =>
    have h : Longest BlankRun text after := h
    show Longest BlankRun text after'
    rw [blankRun_eq] at h ⊢
    exact h.of_take_eq htake
  | bracedBlock => exact ⟨h.1, h.2.of_take_eq htake⟩
  | word =>
    refine h.imp_right fun hword => ⟨hword.1, ?_⟩
    have hrun := hword.2
    rw [wordRun_eq] at hrun ⊢
    exact hrun.of_take_eq htake
  | lineComment =>
    obtain ⟨body, rfl, hrun⟩ := h
    refine ⟨body, rfl, ?_⟩
    rw [lineRun_eq] at hrun ⊢
    exact hrun.of_take_eq htake
  | blockComment => exact ⟨h.1, h.2.of_take_eq htake⟩

/-! ## Closed blocks -/

theorem Fits.of_closed (h : Fits .bracedBlock text after) (hclosed : ClosedBlock text)
    (after' : List Char) : Fits .bracedBlock text after' :=
  ⟨h.1, .inl hclosed, h.2.2⟩

theorem two_le_length_of_closed (h : Fits .bracedBlock text after) (hclosed : ClosedBlock text) :
    2 ≤ text.length := by
  obtain ⟨⟨body, rfl⟩, -⟩ := h
  obtain _ | ⟨ch, body⟩ := body
  · have hbalanced := hclosed.2
    simp [Balanced, unquoted] at hbalanced
  · simp

end Grammar

/-- Up to a closed block, tokens that fit in front of something fit in front of anything. -/
theorem Grammatical.append_of_closed {before : List Token} {block : Token}
    {later later' : List Token} (h : Grammatical (before ++ block :: later))
    (hkind : block.kind = .bracedBlock) (hclosed : Grammar.ClosedBlock block.chars)
    (hlater : Grammatical later') : Grammatical (before ++ block :: later') := by
  have hblock : Grammar.Fits .bracedBlock block.chars (later.flatMap Token.chars) :=
    hkind ▸ h before block later rfl
  induction before with
  | nil =>
    rw [List.nil_append, grammatical_cons_iff, hkind]
    exact ⟨hblock.of_closed hclosed _, hlater⟩
  | cons token before ih =>
    rw [List.cons_append, grammatical_cons_iff] at h ⊢
    refine ⟨h.1.of_take_eq ?_, ih h.2⟩
    have hlength : 2 ≤ (before.flatMap Token.chars ++ block.chars).length := by
      have := Grammar.two_le_length_of_closed hblock hclosed
      rw [List.length_append]
      omega
    simp only [List.flatMap_append, List.flatMap_cons, ← List.append_assoc]
    rw [List.take_append_of_le_length hlength, List.take_append_of_le_length hlength]

/-- Tokens of a text are grammatical from any of them on. -/
theorem Grammatical.of_append {before later : List Token} (h : Grammatical (before ++ later)) :
    Grammatical later := by
  intro before' token later' he
  apply h (before ++ before') token later'
  rw [he, List.append_assoc]

/-- Tokens that are not empty and make up nothing are none. -/
theorem eq_nil_of_flatMap_chars {tokens : List Token} (hne : ∀ token ∈ tokens, token.chars ≠ [])
    (h : tokens.flatMap Token.chars = []) : tokens = [] := by
  rw [List.flatMap_eq_nil_iff] at h
  exact List.eq_nil_iff_forall_not_mem.2 fun token ht => hne token ht (h token ht)

end AssetDecl
