import AssetDecl.Proofs.ExportedBlocks
import AssetDecl.Proofs.ReportedProblems

/-!
# The contents of a block

A block that is closed ends in the brace that closes it (`Grammar.Fits.exists_inner`), and so its
contents are what stands between its braces. A block that the end of the input cuts short is the
last token, and its contents are all that stands behind its brace, but for a closing brace that the
input ends in (`SyntaxTree.text_of_mem_blocks`).
-/

namespace AssetDecl

/-! ## Characters at the ends of a text -/

namespace Text

@[simp] theorem dropFirst_cons_self (c : Char) (cs : List Char) : dropFirst c (c :: cs) = cs :=
  if_pos rfl

theorem dropLast_append_last (c : Char) (cs : List Char) :
    dropLast c cs ++ (if cs.getLast? = some c then [c] else []) = cs := by
  unfold dropLast
  split
  · rename_i hlast
    exact List.dropLast_append_getLast? c hlast
  · exact List.append_nil cs

end Text

namespace Grammar

variable {depth : ℕ} {quoted : Bool} {text after : List Char}

/-! ## The brace that closes a block -/

theorem Closes.eq_brace (hd : 0 < depth) {ch : Char} (h : Closes depth quoted [ch]) : ch = '}' := by
  by_contra hne
  have hnone : (unquoted quoted [ch]).count '}' = 0 := by
    unfold unquoted
    split_ifs <;> simp [unquoted, hne]
  rw [Closes, hnone] at h
  omega

/-- Braces that are open in front of a text are all closed for the first time by a brace. -/
theorem Closes.exists_brace (hd : 0 < depth) (h : Closes depth quoted text) :
    ∃ start others, text = start ++ '}' :: others ∧ Closes depth quoted (start ++ ['}']) := by
  induction text generalizing depth quoted with
  | nil => exact absurd h (not_closes_nil hd quoted)
  | cons ch rest ih =>
    rcases Mode.block_move_cases hd quoted ch rest.head? with
      ⟨-, hclosed⟩ | ⟨depth', quoted', hd', -, hcloses⟩
    · obtain rfl := hclosed.eq_brace hd
      exact ⟨[], rest, rfl, hclosed⟩
    · obtain ⟨start, others, rfl, hstart⟩ := ih hd' ((hcloses rest).mp h)
      exact ⟨ch :: start, others, rfl, (hcloses _).mpr hstart⟩

theorem Fits.exists_inner (h : Fits .bracedBlock text after) (hclosed : ClosedBlock text) :
    ∃ inner, text = '{' :: (inner ++ ['}']) := by
  obtain ⟨⟨body, rfl⟩, -, hshortest⟩ := h
  obtain ⟨start, others, rfl, hstart⟩ := ((closedBlock_iff _).mp hclosed).exists_brace one_pos
  -- The block ends where it is closed for the first time.
  have hothers : others = [] := by
    by_contra hne
    refine hshortest ('{' :: (start ++ ['}'])) others ?_ hne ((closedBlock_iff _).mpr hstart)
    simp
  exact ⟨start, by rw [hothers]⟩

end Grammar

/-! ## The contents of a block -/

namespace Block

variable {b : Block} {inner : List Char}

/-- The contents are what stands behind the first brace, but for a closing brace at its end. -/
theorem text_body (h : b.body.chars = '{' :: inner) :
    b.body.text = "\x7b" ++ b.contents ++ if inner.getLast? = some '}' then "\x7d" else "" := by
  have hbody : b.body.text.toList = '{' :: inner := h
  have hcontents : b.contents.toList = Text.dropLast '}' inner := by
    rw [contents, h, Text.dropFirst_cons_self, String.toList_ofList]
  have hinner := Text.dropLast_append_last '}' inner
  apply String.toList_inj.mp
  rw [String.toList_append, String.toList_append, hcontents, hbody]
  split
  · rename_i hlast
    rw [if_pos hlast] at hinner
    simpa using hinner.symm
  · rename_i hlast
    rw [if_neg hlast] at hinner
    simpa using hinner.symm

end Block

namespace SyntaxTree

variable {text : String} {b : Block}

theorem fits_body_of_mem_blocks (hb : b ∈ (parse text).blocks) :
    ∃ after, Grammar.Fits .bracedBlock b.body.chars after := by
  obtain ⟨later, hplaced⟩ := Block.Parsed.exists_placed ⟨text, hb⟩
  have hfits := hplaced.grammatical (b.header.toList.map Leaf.token) b.body later
    (by simp [Block.tokens])
  exact ⟨_, hplaced.kind_body ▸ hfits⟩

theorem openProblem_body_of_open (hb : b ∈ (parse text).blocks) (hopen : ¬b.Terminated) :
    b.body.openProblem = some .unterminatedBlock := by
  rw [Token.openProblem_of_bracedBlock (kind_body_of_mem_blocks hb)]
  exact if_neg hopen

/-- A block that is not closed is the last token of its text. -/
theorem exists_before_of_open (hb : b ∈ (parse text).blocks) (hopen : ¬b.Terminated) :
    ∃ before, tokenize text = before ++ [b.body] := by
  obtain ⟨-, before, later, htokens⟩ := exists_run_of_mem_blocks hb
  have hsplit : tokenize text =
      (before ++ b.header.toList.map Leaf.token) ++ b.body :: later := by
    simp [htokens, Block.tokens]
  have hproblem := openProblem_body_of_open hb hopen
  rw [later_eq_nil_of_open hsplit (by simp [hproblem])] at hsplit
  exact ⟨_, hsplit⟩

/-- The text of a block that is closed is its contents between its braces. A block that is not
closed is reported, stands at the end of the input, and its text is its contents behind its brace,
with a closing brace that they lack if the input ends in one. -/
theorem text_of_mem_blocks (text : String) :
    ∀ b ∈ (parse text).blocks,
      (b.Terminated → b.body.text = "\x7b" ++ b.contents ++ "\x7d") ∧
      (¬b.Terminated →
        ∃ before, tokenize text = before ++ [b.body] ∧
          ⟨.unterminatedBlock, lineAt (tokenize text) before.length⟩ ∈ (read text).2 ∧
          b.body.text = "\x7b" ++ b.contents ++
            if text.toList.getLast? = some '}' then "\x7d" else "") := by
  intro b hb
  obtain ⟨after, hfits⟩ := fits_body_of_mem_blocks hb
  constructor
  · intro hclosed
    obtain ⟨inner, hbody⟩ := hfits.exists_inner hclosed
    have htext := Block.text_body hbody
    rwa [if_pos List.getLast?_concat] at htext
  · intro hopen
    obtain ⟨before, htokens⟩ := exists_before_of_open hb hopen
    obtain ⟨inner, hbody⟩ := hfits.1
    refine ⟨before, htokens, ?_, ?_⟩
    · exact mem_snd_read_of_open htokens (openProblem_body_of_open hb hopen)
    · have hchars := (tokenize_spec text).1
      rw [htokens, List.flatMap_append, List.flatMap_singleton, hbody] at hchars
      have hlast : text.toList.getLast? = some '}' ↔ inner.getLast? = some '}' := by
        rw [← hchars, List.getLast?_append_of_ne_nil _ (List.cons_ne_nil _ _), List.getLast?_cons]
        cases inner.getLast? <;> simp
      rw [Block.text_body hbody, if_congr hlast rfl rfl]

/-- A block with braces in it, and one that the end of the input cuts short in a quote. -/
theorem text_of_mem_blocks_rocks :
    let text := "rock a \x7b x \x7b\x7d \x7d\nrock b \x7b \"\x7d"
    ∃ a ∈ (parse text).blocks, ∃ b ∈ (parse text).blocks,
      a.Terminated ∧ a.body.text = "\x7b" ++ a.contents ++ "\x7d" ∧
      ¬b.Terminated ∧ ⟨.unterminatedBlock, 2⟩ ∈ (read text).2 ∧
        b.body.text = "\x7b" ++ b.contents ++ "\x7d" := by
  intro text
  have hblocks : ∃ a ∈ (parse text).blocks, ∃ b ∈ (parse text).blocks,
      a.Terminated ∧ ¬b.Terminated := by decide +kernel
  obtain ⟨a, ha, b, hb, hclosed, hopen⟩ := hblocks
  have hlines : lineAt (tokenize text) ((tokenize text).length - 1) = 2 := by decide +kernel
  have hlast : text.toList.getLast? = some '}' := by decide +kernel
  obtain ⟨before, htokens, hreported, hbody⟩ := (text_of_mem_blocks text b hb).2 hopen
  have hlength : before.length = (tokenize text).length - 1 := by simp [htokens]
  rw [hlength, hlines] at hreported
  rw [if_pos hlast] at hbody
  exact ⟨a, ha, b, hb, hclosed, (text_of_mem_blocks text a ha).1 hclosed, hopen, hreported, hbody⟩

/-- Of a block that is not closed, the contents lack the brace that closes the block in it. -/
theorem contents_lose_brace :
    let text := "skin s \x7b model \x7b x \x7d"
    (read text).2 = [⟨.unterminatedBlock, 1⟩] ∧
      ∃ b ∈ (parse text).blocks, ¬b.Terminated ∧
        b.body.text = "\x7b model \x7b x \x7d" ∧ b.contents = " model \x7b x " ∧
          b.body.text ≠ "\x7b" ++ b.contents := by
  decide +kernel

end SyntaxTree

end AssetDecl
