import AssetDecl.Proofs.LosslessTree
import AssetDecl.Proofs.TokenSlices
import AssetDecl.Declaration

/-!
# Exported blocks

The raw text of a block is a piece of the file it was found in, and the block can be read back from
it. Which block a run of tokens makes up depends neither on the nodes in front of them nor on lines
(`Outline.Behind`), the tokens of a block of some text make up just that block
(`SyntaxTree.exists_run_of_mem_blocks`), and cut out of the text they stay the same tokens
(`Block.Placed.move`). Hence any sequence of raw texts parted by blanks is read as just these blocks
(`SyntaxTree.parse_exported`).
-/

namespace AssetDecl

namespace Outline

variable {o o' o'' : Outline} {front front' : List Node} {tokens : List Token} {token : Token}

/-! ## Outlines behind other nodes -/

/-- Both outlines have the same header, and the second one has these nodes in front of those of the
first. -/
structure Behind (front : List Node) (o o' : Outline) : Prop where
  nodes : o'.nodes.toList = front ++ o.nodes.toList
  header : o'.header = o.header
  nameIndex : o'.nameIndex = o.nameIndex
  typeIndex : o'.typeIndex = o.typeIndex

theorem Behind.refl (o : Outline) : Behind [] o o :=
  ⟨rfl, rfl, rfl, rfl⟩

theorem Behind.trans (h : Behind front o o') (h' : Behind front' o' o'') :
    Behind (front' ++ front) o o'' := by
  refine ⟨?_, h'.header.trans h.header, h'.nameIndex.trans h.nameIndex,
    h'.typeIndex.trans h.typeIndex⟩
  rw [h'.nodes, h.nodes, List.append_assoc]

theorem Behind.nodes_eq (h : Behind front {} o) : o.nodes.toList = front := by
  rw [h.nodes]
  exact List.append_nil front

theorem Behind.addTrivia (h : Behind front o o') (leaf : Leaf) :
    Behind front (o.addTrivia leaf) (o'.addTrivia leaf) := by
  unfold Outline.addTrivia
  rw [h.nameIndex]
  split
  · exact ⟨h.nodes, congrArg (·.push leaf) h.header, rfl, h.typeIndex⟩
  · refine ⟨?_, h.header, rfl, h.typeIndex⟩
    simp [h.nodes]

theorem Behind.addWord (h : Behind front o o') (token : Token) (line line' : ℕ) :
    Behind front (o.addWord token line) (o'.addWord token line') := by
  unfold Outline.addWord
  rw [h.nameIndex, h.typeIndex, h.header]
  split
  · exact ⟨h.nodes, rfl, rfl, rfl⟩
  · exact ⟨h.nodes, rfl, rfl, rfl⟩
  · exact ⟨h.nodes, rfl, rfl, rfl⟩

theorem Behind.addBlock (h : Behind front o o') (token : Token) (line line' : ℕ) :
    Behind front (o.addBlock token line) (o'.addBlock token line') := by
  unfold Outline.addBlock
  rw [h.nameIndex, h.typeIndex, h.header]
  split
  · refine ⟨?_, rfl, rfl, rfl⟩
    simp [h.nodes]
  · refine ⟨?_, rfl, rfl, rfl⟩
    simp [h.nodes]

/-- Neither the line of a token nor what is wrong with it changes what is built. -/
theorem Behind.add (h : Behind front o o') {lexeme lexeme' : Lexeme}
    (htoken : lexeme'.token = lexeme.token) :
    Behind front (o.add lexeme) (o'.add lexeme') := by
  have hdiagnostics : Behind front
      { o with diagnostics := o.diagnostics ++ lexeme.diagnostics }
      { o' with diagnostics := o'.diagnostics ++ lexeme'.diagnostics } :=
    ⟨h.nodes, h.header, h.nameIndex, h.typeIndex⟩
  unfold Outline.add
  rw [htoken]
  dsimp only
  split
  · exact hdiagnostics.addTrivia _
  · exact hdiagnostics.addTrivia _
  · exact hdiagnostics.addTrivia _
  · exact hdiagnostics.addWord _ _ _
  · exact hdiagnostics.addBlock _ _ _

/-! ## Outlines of tokens -/

def addToken (o : Outline) (token : Token) : Outline :=
  o.add ⟨token, 1, none⟩

/-- The outline of some tokens, with every line taken for the first one. -/
def ofTokens (tokens : List Token) : Outline :=
  tokens.foldl addToken {}

theorem ofTokens_concat (tokens : List Token) (token : Token) :
    ofTokens (tokens ++ [token]) = (ofTokens tokens).addToken token := by
  unfold ofTokens
  rw [List.foldl_append]
  rfl

theorem Behind.foldl_add (h : Behind front o o') (lexemes : List Lexeme) :
    Behind front ((lexemes.map Lexeme.token).foldl addToken o) (lexemes.foldl Outline.add o') := by
  induction lexemes generalizing o o' with
  | nil => exact h
  | cons lexeme lexemes ih => exact ih (h.add rfl)

theorem Behind.foldl_addToken (h : Behind front o o') (tokens : List Token) :
    Behind front (tokens.foldl addToken o) (tokens.foldl addToken o') := by
  induction tokens generalizing o o' with
  | nil => exact h
  | cons token tokens ih => exact ih (h.add rfl)

/-- An outline without a header goes on like an empty one. -/
theorem Behind.append {tokens tokens' : List Token} (h : Behind front {} (ofTokens tokens))
    (h' : Behind front' {} (ofTokens tokens')) :
    Behind (front ++ front') {} (ofTokens (tokens ++ tokens')) := by
  have hmore := h.foldl_addToken tokens'
  rw [ofTokens, List.foldl_append]
  exact h'.trans hmore

theorem Behind.finish (h : Behind front {} o) : o.finish.1 = ⟨front⟩ := by
  have hheader : o.header = #[] := h.header
  unfold Outline.finish
  rw [hheader, h.nodes_eq]
  rfl

theorem holds_ofTokens (tokens : List Token) : (ofTokens tokens).Holds tokens := by
  induction tokens using List.reverseRecOn with
  | nil => exact holds_empty
  | append_singleton tokens token ih =>
    rw [ofTokens_concat]
    exact ih.add ⟨token, 1, none⟩

/-! ## What a token does -/

/-- Outside a header nothing of one is left. -/
structure Tidy (o : Outline) : Prop where
  header : o.nameIndex = none → o.header = #[]
  typeIndex : o.nameIndex = none → o.typeIndex = none

theorem Behind.tidy (h : Behind front {} o) : o.Tidy :=
  ⟨fun _ => h.header, fun _ => h.typeIndex⟩

/-- All that a token can do behind some nodes and a header: it becomes a leaf, it goes into a
header, or it closes the header. -/
inductive Adds (nodes : List Node) (header : Array Leaf) (token : Token) (o : Outline) : Prop where
  | leaf (l : Leaf) (h : Behind (nodes ++ [.leaf l]) {} o)
  | header (hnodes : o.nodes.toList = nodes) (hname : o.nameIndex.isSome)
  | block (b : Block) (hheader : b.header = header) (hbody : b.body = token)
    (h : Behind (nodes ++ [.block b]) {} o)

theorem Adds.tidy {nodes : List Node} {header : Array Leaf} (h : Adds nodes header token o) :
    o.Tidy := by
  cases h with
  | leaf l h => exact h.tidy
  | header hnodes hname =>
    have hne : o.nameIndex ≠ none := Option.isSome_iff_ne_none.1 hname
    exact ⟨fun h => absurd h hne, fun h => absurd h hne⟩
  | block b hheader hbody h => exact h.tidy

theorem Tidy.adds_addTrivia (h : o.Tidy) (l : Leaf) :
    Adds o.nodes.toList o.header l.token (o.addTrivia l) := by
  unfold addTrivia
  split
  · rename_i hname
    exact .header rfl hname
  · rename_i hname
    have hname : o.nameIndex = none := by simpa using hname
    refine .leaf l ⟨?_, h.header hname, hname, h.typeIndex hname⟩
    simp

theorem adds_addWord (o : Outline) (token : Token) (line : ℕ) :
    Adds o.nodes.toList o.header token (o.addWord token line) := by
  unfold addWord
  split
  · exact .header rfl rfl
  · exact .header rfl rfl
  · rename_i first _ hfirst _
    exact .header rfl (hfirst ▸ rfl)

theorem Tidy.adds_addBlock (h : o.Tidy) (token : Token) (line : ℕ) :
    Adds o.nodes.toList o.header token (o.addBlock token line) := by
  unfold addBlock
  split
  · rename_i hname
    have hname : o.nameIndex = none := by simpa using hname
    refine .block ⟨#[], token, none, none⟩ (h.header hname).symm rfl
      ⟨?_, h.header hname, hname, h.typeIndex hname⟩
    simp
  · refine .block ⟨o.header, token, o.nameIndex, o.typeIndex⟩ rfl rfl ⟨?_, rfl, rfl, rfl⟩
    simp

theorem Tidy.adds (h : o.Tidy) (token : Token) :
    Adds o.nodes.toList o.header token (o.addToken token) := by
  have htidy : Tidy { o with
      diagnostics := o.diagnostics ++ Lexeme.diagnostics ⟨token, 1, none⟩ } :=
    ⟨h.header, h.typeIndex⟩
  unfold addToken add
  dsimp only
  split
  · exact htidy.adds_addTrivia ⟨.whitespace, token⟩
  · exact htidy.adds_addTrivia ⟨.comment, token⟩
  · exact htidy.adds_addTrivia ⟨.comment, token⟩
  · exact adds_addWord _ _ _
  · exact htidy.adds_addBlock _ _

theorem tidy_ofTokens (tokens : List Token) : (ofTokens tokens).Tidy := by
  induction tokens using List.reverseRecOn with
  | nil => exact (Behind.refl {}).tidy
  | append_singleton tokens token ih =>
    rw [ofTokens_concat]
    exact (ih.adds token).tidy

end Outline

/-! ## Blocks of a text -/

/-- The tokens of the block make up the block and nothing else. -/
def Block.Whole (b : Block) : Prop :=
  Outline.Behind [.block b] {} (.ofTokens b.tokens)

namespace Outline

variable {tokens : List Token}

/-- The tokens are those of the finished nodes and those of the header under construction, which
make it up on their own; and each finished block is made up by a run of the tokens. -/
theorem exists_pending (tokens : List Token) :
    (∃ done pending, tokens = done ++ pending ∧
      Behind (ofTokens tokens).nodes.toList (ofTokens pending) (ofTokens tokens)) ∧
    ∀ b, .block b ∈ (ofTokens tokens).nodes.toList →
      b.Whole ∧ ∃ before after, tokens = before ++ b.tokens ++ after := by
  induction tokens using List.reverseRecOn with
  | nil => exact ⟨⟨[], [], rfl, .refl {}⟩, by simp [ofTokens]⟩
  | append_singleton tokens token ih =>
    obtain ⟨⟨done, pending, htokens, hbehind⟩, hblocks⟩ := ih
    have hnil : (ofTokens pending).nodes.toList = [] := by simpa using hbehind.nodes
    have hadds := (tidy_ofTokens pending).adds token
    have hbehind' : Behind (ofTokens tokens).nodes.toList (ofTokens (pending ++ [token]))
        (ofTokens (tokens ++ [token])) := by
      rw [ofTokens_concat, ofTokens_concat]
      exact hbehind.add rfl
    rw [← ofTokens_concat, hnil] at hadds
    have hold : ∀ b, .block b ∈ (ofTokens tokens).nodes.toList →
        b.Whole ∧ ∃ before after, tokens ++ [token] = before ++ b.tokens ++ after := by
      intro b hb
      obtain ⟨hwhole, before, after, he⟩ := hblocks b hb
      exact ⟨hwhole, before, after ++ [token], by rw [he, List.append_assoc]⟩
    cases hadds with
    | header hnone _ =>
      have hnodes := hbehind'.nodes
      rw [hnone, List.append_nil] at hnodes
      rw [hnodes]
      refine ⟨⟨done, pending ++ [token], ?_, hbehind'⟩, hold⟩
      rw [htokens, List.append_assoc]
    | leaf l hleaf =>
      have hdone := hleaf.trans hbehind'
      rw [hdone.nodes_eq]
      refine ⟨⟨tokens ++ [token], [], (List.append_nil _).symm, hdone⟩, fun b hb => hold b ?_⟩
      simpa using hb
    | block b hheader hbody hblock =>
      have hdone := hblock.trans hbehind'
      have hb : b.tokens = pending ++ [token] := by
        have hpending := (holds_ofTokens pending).tokens_eq
        rw [Outline.tokens, hnil, List.flatMap_nil, List.nil_append] at hpending
        rw [Block.tokens, hheader, hbody, hpending]
      have hwhole : b.Whole := by
        unfold Block.Whole
        rw [hb]
        exact hblock
      rw [hdone.nodes_eq]
      refine ⟨⟨tokens ++ [token], [], (List.append_nil _).symm, hdone⟩, fun b' hb' => ?_⟩
      rcases List.mem_append.1 hb' with hb' | hb'
      · exact hold b' hb'
      · obtain rfl : b' = b := by simpa using hb'
        exact ⟨hwhole, done, [], by rw [hb, htokens, List.append_nil, List.append_assoc]⟩

/-- A leaf in front of a header stays in front. -/
theorem behind_ofTokens_cons {l : Leaf} {token : Token} (h : Behind [.leaf l] {} (ofTokens [token]))
    (tokens : List Token) :
    Behind [.leaf l] (ofTokens tokens) (ofTokens (token :: tokens)) :=
  h.foldl_addToken tokens

end Outline

namespace Block

variable {b : Block}

/-- The block is one of the blocks of some text. -/
def Parsed (b : Block) : Prop :=
  ∃ text, b ∈ (SyntaxTree.parse text).blocks

/-- Outside quotes the braces of the block are closed. -/
def Terminated (b : Block) : Prop :=
  Grammar.ClosedBlock b.body.chars

instance (b : Block) : Decidable b.Terminated :=
  inferInstanceAs (Decidable (_ ≠ [] ∧ List.count _ _ = List.count _ _))

/-- A block starts with an identifier or with its brace. -/
theorem Whole.kind_head (h : b.Whole) {token : Token} {later : List Token}
    (htokens : b.tokens = token :: later) : token.kind = .word ∨ token.kind = .bracedBlock := by
  unfold Whole at h
  rw [htokens] at h
  have htrivia : ∀ l, ¬Outline.Behind [.leaf l] {} (.ofTokens [token]) := by
    intro l hl
    have hnodes := (Outline.behind_ofTokens_cons hl later).nodes
    rw [h.nodes_eq] at hnodes
    simp at hnodes
  obtain ⟨kind, text⟩ := token
  cases kind with
  | whitespace => exact absurd ⟨rfl, rfl, rfl, rfl⟩ (htrivia ⟨.whitespace, ⟨.whitespace, text⟩⟩)
  | lineComment => exact absurd ⟨rfl, rfl, rfl, rfl⟩ (htrivia ⟨.comment, ⟨.lineComment, text⟩⟩)
  | blockComment => exact absurd ⟨rfl, rfl, rfl, rfl⟩ (htrivia ⟨.comment, ⟨.blockComment, text⟩⟩)
  | word => exact .inl rfl
  | bracedBlock => exact .inr rfl

end Block

namespace SyntaxTree

theorem behind_of_tokenize (text : String) :
    ∃ o : Outline, Outline.Behind [] (.ofTokens (tokenize text)) o ∧ parse text = o.finish.1 := by
  refine ⟨(lexemesFrom 1 text.toList).foldl Outline.add {}, ?_, congrArg Prod.fst (read_eq text)⟩
  rw [tokenize_eq]
  exact (Outline.Behind.refl {}).foldl_add (lexemesFrom 1 text.toList)

/-- A text is read as some nodes if its tokens make up these nodes. -/
theorem parse_of_behind {text : String} {nodes : List Node}
    (h : Outline.Behind nodes {} (.ofTokens (tokenize text))) : parse text = ⟨nodes⟩ := by
  obtain ⟨o, ho, hparse⟩ := behind_of_tokenize text
  rw [hparse]
  exact (h.trans ho).finish

theorem mem_nodes_of_mem_blocks {o : Outline} {b : Block} (hb : b ∈ o.finish.1.blocks) :
    .block b ∈ o.nodes.toList := by
  obtain ⟨node, hnode, hb⟩ := List.mem_filterMap.1 hb
  cases node with
  | leaf l => simp [Node.block?] at hb
  | block b' =>
    obtain rfl := Option.some.inj hb
    unfold Outline.finish at hnode
    split at hnode
    · exact hnode
    · rcases List.mem_append.1 hnode with hnode | hnode
      · exact hnode
      · simp at hnode

/-- A block of a text is made up by its own tokens, which stand in the text in one run. -/
theorem exists_run_of_mem_blocks {text : String} {b : Block} (hb : b ∈ (parse text).blocks) :
    b.Whole ∧ ∃ before later, tokenize text = before ++ (b.tokens ++ later) := by
  obtain ⟨o, ho, hparse⟩ := behind_of_tokenize text
  rw [hparse] at hb
  have hmem := mem_nodes_of_mem_blocks hb
  rw [ho.nodes, List.nil_append] at hmem
  obtain ⟨hwhole, before, later, he⟩ := (Outline.exists_pending (tokenize text)).2 b hmem
  exact ⟨hwhole, before, later, by rw [he, List.append_assoc]⟩

theorem kind_body_of_mem_blocks {text : String} {b : Block} (hb : b ∈ (parse text).blocks) :
    b.body.kind = .bracedBlock := by
  obtain ⟨node, hnode, hb⟩ := List.mem_filterMap.1 hb
  have hkinds := kindsKept_parse text node hnode
  cases node with
  | leaf l => simp [Node.block?] at hb
  | block b' =>
    obtain rfl := Option.some.inj hb
    exact hkinds.2

end SyntaxTree

namespace Block

variable {b : Block}

/-! ## Raw texts -/

/-- The tokens of the block stand in a text in one run, and in front of other tokens of it. -/
structure Placed (b : Block) (later : List Token) : Prop where
  whole : b.Whole
  kind_body : b.body.kind = .bracedBlock
  grammatical : Grammatical (b.tokens ++ later)
  ne_nil : ∀ token ∈ b.tokens ++ later, token.chars ≠ []

theorem Parsed.exists_placed (h : b.Parsed) : ∃ later, b.Placed later := by
  obtain ⟨text, hb⟩ := h
  obtain ⟨hwhole, before, later, he⟩ := SyntaxTree.exists_run_of_mem_blocks hb
  obtain ⟨-, hne, hgrammar⟩ := tokenize_spec text
  rw [he] at hne hgrammar
  exact ⟨later, hwhole, SyntaxTree.kind_body_of_mem_blocks hb, hgrammar.of_append,
    fun token ht => hne token (List.mem_append_right _ ht)⟩

/-- A closed block may be followed by any other tokens. -/
theorem Placed.move {later later' : List Token} (h : b.Placed later) (hclosed : b.Terminated)
    (hlater : Grammatical later') (hne : ∀ token ∈ later', token.chars ≠ []) :
    b.Placed later' := by
  refine ⟨h.whole, h.kind_body, ?_, fun token ht => ?_⟩
  · have hgrammar := h.grammatical
    rw [tokens, List.append_assoc, List.singleton_append] at hgrammar ⊢
    exact hgrammar.append_of_closed h.kind_body hclosed hlater
  · rcases List.mem_append.1 ht with ht | ht
    · exact h.ne_nil token (List.mem_append_left _ ht)
    · exact hne token ht

/-- Any block may be followed by the end of the input. -/
theorem Placed.move_to_end {later : List Token} (h : b.Placed later) : b.Placed [] := by
  have hne : ∀ token ∈ b.tokens, token.chars ≠ [] := fun token ht =>
    h.ne_nil token (List.mem_append_left _ ht)
  refine ⟨h.whole, h.kind_body, ?_, ?_⟩
  · rw [List.append_nil]
    exact h.grammatical.cut hne
  · rwa [List.append_nil]

theorem Placed.not_blank {later : List Token} (h : b.Placed later) {ch : Char} {rest : List Char}
    (hchars : (b.tokens ++ later).flatMap Token.chars = ch :: rest) : ch ∉ Grammar.blanks := by
  obtain ⟨token, others, htokens⟩ : ∃ token others, b.tokens = token :: others :=
    List.exists_cons_of_ne_nil (by simp [tokens])
  have hkind := h.whole.kind_head htokens
  have hgrammar := h.grammatical
  have hne := h.ne_nil token (by simp [htokens])
  rw [htokens, List.cons_append, grammatical_cons_iff] at hgrammar
  rw [htokens, List.cons_append, List.flatMap_cons] at hchars
  obtain ⟨ch', body, hbody⟩ := List.exists_cons_of_ne_nil hne
  rw [hbody] at hchars hgrammar
  obtain ⟨rfl, -⟩ := List.cons.inj hchars
  intro hblank
  have hwhitespace := hgrammar.1.kind_eq
  rw [Grammar.kindOf, if_pos hblank] at hwhitespace
  simp [hwhitespace] at hkind

end Block

/-! ## Sequences of raw texts -/

namespace SyntaxTree

def IsSeparator (text : String) : Prop :=
  ∀ ch ∈ text.toList, ch ∈ Grammar.blanks

instance (text : String) : Decidable (IsSeparator text) :=
  List.decidableBAll (· ∈ Grammar.blanks) text.toList

/-- The token of a separator, none for an empty one. -/
def separatorTokens (separator : String) : List Token :=
  if separator = "" then [] else [⟨.whitespace, separator⟩]

def separatorNodes (separator : String) : List Node :=
  (separatorTokens separator).map fun token => .leaf ⟨.whitespace, token⟩

/-- The raw texts of some blocks, each behind a separator, and a last separator. -/
def exportText (file : Option SourceFile) (items : List (String × Block)) (last : String) :
    String :=
  String.join (items.map fun (separator, block) => separator ++ (block.capture file).raw) ++ last

def exportTokens (items : List (String × Block)) (last : String) : List Token :=
  items.flatMap (fun (separator, block) => separatorTokens separator ++ block.tokens) ++
    separatorTokens last

/-- The blocks, and a leaf for every separator that is not empty. -/
def exportNodes (items : List (String × Block)) (last : String) : List Node :=
  items.flatMap (fun (separator, block) => separatorNodes separator ++ [.block block]) ++
    separatorNodes last

variable {later : List Token} {separator last : String} {items : List (String × Block)}

theorem exportTokens_cons (item : String × Block) (items : List (String × Block)) (last : String) :
    exportTokens (item :: items) last =
      separatorTokens item.1 ++ (item.2.tokens ++ exportTokens items last) := by
  simp [exportTokens]

theorem exportNodes_cons (item : String × Block) (items : List (String × Block)) (last : String) :
    exportNodes (item :: items) last =
      separatorNodes item.1 ++ ([.block item.2] ++ exportNodes items last) := by
  simp [exportNodes]

theorem flatMap_chars_separatorTokens (separator : String) :
    (separatorTokens separator).flatMap Token.chars = separator.toList := by
  unfold separatorTokens
  split
  · rename_i hempty
    rw [hempty]
    rfl
  · exact List.append_nil _

theorem ne_nil_of_mem_separatorTokens {token : Token} (h : token ∈ separatorTokens separator) :
    token.chars ≠ [] := by
  unfold separatorTokens at h
  split at h
  · simp at h
  · rename_i hne
    obtain rfl := List.mem_singleton.1 h
    exact Token.chars_ne_nil_iff.2 hne

theorem grammatical_separatorTokens (hseparator : IsSeparator separator)
    (hlater : Grammatical later)
    (hstart : ∀ ch rest, later.flatMap Token.chars = ch :: rest → ch ∉ Grammar.blanks) :
    Grammatical (separatorTokens separator ++ later) := by
  unfold separatorTokens
  split
  · exact hlater
  · rw [List.singleton_append, grammatical_cons_iff]
    refine ⟨⟨hseparator, fun more rest he hmore => ?_⟩, hlater⟩
    obtain _ | ⟨ch, more⟩ := more
    · rfl
    · exact absurd (hmore ch (by simp)) (hstart ch (more ++ rest) he)

/-- The tokens of the blocks and of the separators between them are grammatical together. -/
theorem grammatical_exportTokens
    (hitems : ∀ item ∈ items, IsSeparator item.1 ∧ item.2.Parsed ∧ item.2.Terminated)
    (hlast : IsSeparator last) :
    Grammatical (exportTokens items last) ∧
      ∀ token ∈ exportTokens items last, token.chars ≠ [] := by
  induction items with
  | nil =>
    have hgrammar := grammatical_separatorTokens hlast grammatical_nil (by simp)
    rw [List.append_nil] at hgrammar
    exact ⟨hgrammar, fun token ht => ne_nil_of_mem_separatorTokens ht⟩
  | cons item items ih =>
    obtain ⟨hseparator, hparsed, hclosed⟩ := hitems item List.mem_cons_self
    obtain ⟨hgrammar, hne⟩ := ih fun item' h => hitems item' (List.mem_cons_of_mem _ h)
    obtain ⟨later, hplaced⟩ := hparsed.exists_placed
    have hmoved := hplaced.move hclosed hgrammar hne
    rw [exportTokens_cons]
    refine ⟨grammatical_separatorTokens hseparator hmoved.grammatical
      fun ch rest he => hmoved.not_blank he, fun token ht => ?_⟩
    rcases List.mem_append.1 ht with ht | ht
    · exact ne_nil_of_mem_separatorTokens ht
    · exact hmoved.ne_nil token ht

theorem flatMap_chars_exportTokens (file : Option SourceFile) (items : List (String × Block))
    (last : String) :
    (exportTokens items last).flatMap Token.chars = (exportText file items last).toList := by
  have hlast : (exportTokens [] last).flatMap Token.chars = last.toList :=
    flatMap_chars_separatorTokens last
  induction items with
  | nil =>
    rw [hlast]
    simp [exportText]
  | cons item items ih =>
    have hraw : (item.2.capture file).raw.toList = item.2.tokens.flatMap Token.chars :=
      (Token.concat_eq_iff.1 rfl).symm
    rw [exportTokens_cons, List.flatMap_append, List.flatMap_append, ih,
      flatMap_chars_separatorTokens, ← hraw]
    simp [exportText, String.toList_join]

theorem tokenize_exportText (file : Option SourceFile)
    (hitems : ∀ item ∈ items, IsSeparator item.1 ∧ item.2.Parsed ∧ item.2.Terminated)
    (hlast : IsSeparator last) :
    exportTokens items last = tokenize (exportText file items last) := by
  obtain ⟨hgrammar, hne⟩ := grammatical_exportTokens hitems hlast
  exact eq_tokenize_of_grammatical (fun token ht => Token.chars_ne_nil_iff.1 (hne token ht))
    (Token.concat_eq_iff.2 (flatMap_chars_exportTokens file items last)) hgrammar

theorem behind_separatorTokens (separator : String) :
    Outline.Behind (separatorNodes separator) {} (.ofTokens (separatorTokens separator)) := by
  unfold separatorNodes separatorTokens
  split <;> exact ⟨rfl, rfl, rfl, rfl⟩

theorem behind_exportTokens (hparsed : ∀ item ∈ items, item.2.Parsed) :
    Outline.Behind (exportNodes items last) {} (.ofTokens (exportTokens items last)) := by
  induction items with
  | nil => exact behind_separatorTokens last
  | cons item items ih =>
    obtain ⟨_, hplaced⟩ := (hparsed item List.mem_cons_self).exists_placed
    have hothers := ih fun item' h => hparsed item' (List.mem_cons_of_mem _ h)
    rw [exportNodes_cons, exportTokens_cons]
    exact (behind_separatorTokens item.1).append (Outline.Behind.append hplaced.whole hothers)

theorem blocks_exportNodes (items : List (String × Block)) (last : String) :
    (SyntaxTree.mk (exportNodes items last)).blocks = items.map Prod.snd := by
  have hseparator : ∀ separator, (separatorNodes separator).filterMap Node.block? = [] := by
    intro separator
    unfold separatorNodes
    simp [Node.block?]
  induction items with
  | nil => exact hseparator last
  | cons item items ih =>
    unfold blocks at ih ⊢
    dsimp only at ih ⊢
    rw [exportNodes_cons, List.filterMap_append, hseparator, List.filterMap_append, ih]
    rfl

/-- The raw texts of closed blocks, parted by any blanks, are read as these blocks and a leaf for
every run of blanks. The raw text of a single block is read as this block, also if its braces are
not closed. -/
theorem parse_exported (file : Option SourceFile) :
    (∀ (items : List (String × Block)) (last : String),
      (∀ item ∈ items, IsSeparator item.1 ∧ item.2.Parsed ∧ item.2.Terminated) →
      IsSeparator last →
        parse (exportText file items last) = ⟨exportNodes items last⟩ ∧
        (parse (exportText file items last)).blocks = items.map Prod.snd) ∧
    ∀ b : Block, b.Parsed → parse (b.capture file).raw = ⟨[.block b]⟩ := by
  refine ⟨fun items last hitems hlast => ?_, fun b hparsed => ?_⟩
  · have hparse : parse (exportText file items last) = ⟨exportNodes items last⟩ := by
      apply parse_of_behind
      rw [← tokenize_exportText file hitems hlast]
      exact behind_exportTokens fun item h => (hitems item h).2.1
    exact ⟨hparse, hparse ▸ blocks_exportNodes items last⟩
  · obtain ⟨_, hplaced⟩ := hparsed.exists_placed
    have hend := hplaced.move_to_end
    have htokens : b.tokens = tokenize (b.capture file).raw := by
      refine eq_tokenize_of_grammatical (fun token ht => ?_) rfl (by simpa using hend.grammatical)
      exact Token.chars_ne_nil_iff.1 (hend.ne_nil token (by simpa using ht))
    apply parse_of_behind
    rw [← htokens]
    exact hend.whole

/-- A named block, an anonymous one and an open one. -/
theorem parse_exported_walls :
    ∃ bricks hidden gate,
      (parse "wall bricks \x7bold \"\x7d\"\x7d\x7b\x7d // c\nwall gate \x7b").blocks =
        [bricks, hidden, gate] ∧
      (parse (exportText none [("", hidden), ("\n ", bricks)] "\t")).blocks = [hidden, bricks] ∧
      parse (gate.capture none).raw = ⟨[.block gate]⟩ := by
  have hclosed : (parse "wall bricks \x7bold \"\x7d\"\x7d\x7b\x7d // c\nwall gate \x7b").blocks.map
      (fun b => decide b.Terminated) = [true, true, false] := by decide +kernel
  obtain ⟨bricks, hidden, gate, he⟩ := List.length_eq_three.1
    ((List.length_map _).symm.trans (congrArg List.length hclosed))
  obtain ⟨hbricks, hhidden, -⟩ : bricks.Terminated ∧ hidden.Terminated ∧ ¬gate.Terminated := by
    simpa [he] using hclosed
  have hparsed : ∀ b ∈ [bricks, hidden, gate], b.Parsed := fun b hb => ⟨_, he ▸ hb⟩
  refine ⟨bricks, hidden, gate, he, ?_, (parse_exported none).2 gate (hparsed gate (by simp))⟩
  refine ((parse_exported none).1 _ _ (fun item hitem => ?_) (by decide)).2
  rcases List.mem_pair.1 hitem with rfl | rfl
  · exact ⟨(by decide : IsSeparator ""), hparsed hidden (by simp), hhidden⟩
  · exact ⟨(by decide : IsSeparator "\n "), hparsed bricks (by simp), hbricks⟩

end SyntaxTree

end AssetDecl
