import AssetDecl.Proofs.TokenGrammar

/-!
# Trees lose nothing

`Outline.Holds` is the invariant of the parser: the nodes and the header under construction hold the
tokens added so far, in order, and in leaves of the right kind. Every token added keeps it
(`Holds.add`), and so the tree of a text has exactly the tokens of the text and renders to it.
-/

namespace AssetDecl

/-! ## Kinds of leaves -/

/-- The kinds of tokens that a leaf of this kind is for. -/
def LeafKind.Accepts (leaf : LeafKind) (token : TokenKind) : Prop :=
  match leaf with
  | .whitespace => token = .whitespace
  | .comment => token = .lineComment ∨ token = .blockComment
  | .typeWord | .nameWord | .surplus => token = .word

/-- The leaf has a token of a kind that it is for. -/
def Leaf.KindKept (l : Leaf) : Prop :=
  l.kind.Accepts l.token.kind

/-- All leaves have tokens of their kinds, and the braces are a block. -/
def Node.KindsKept : Node → Prop
  | .leaf l => l.KindKept
  | .block b => (∀ l ∈ b.header, l.KindKept) ∧ b.body.kind = .bracedBlock

def SyntaxTree.KindsKept (tree : SyntaxTree) : Prop :=
  ∀ node ∈ tree.children, node.KindsKept

/-! ## The outline -/

namespace Outline

/-- The tokens of the nodes, then those of the header. -/
def tokens (o : Outline) : List Token :=
  o.nodes.toList.flatMap Node.tokens ++ o.header.toList.map Leaf.token

/-- The leaf at this index is an identifier. -/
def WordAt (header : Array Leaf) (i : ℕ) : Prop :=
  ∃ l, header[i]? = some l ∧ l.token.kind = .word

/-- The outline holds exactly these tokens, in this order and each in a leaf of its kind. -/
structure Holds (o : Outline) (tokens : List Token) : Prop where
  tokens_eq : o.tokens = tokens
  nodes_kept : ∀ node ∈ o.nodes, node.KindsKept
  header_kept : ∀ l ∈ o.header, l.KindKept
  /-- A header starts with an identifier. -/
  header_empty : o.nameIndex = none → o.header = #[]
  /-- What may become the type is an identifier. -/
  word_at_name : ∀ i, o.nameIndex = some i → WordAt o.header i

theorem holds_empty : Holds {} [] where
  tokens_eq := rfl
  nodes_kept := by simp
  header_kept := by simp
  header_empty := fun _ => rfl
  word_at_name := by simp

theorem forall_mem_push {α : Type} {p : α → Prop} {xs : Array α} {x : α}
    (hxs : ∀ y ∈ xs, p y) (hx : p x) : ∀ y ∈ xs.push x, p y := by
  intro y hy
  rcases Array.mem_push.1 hy with hy | rfl
  · exact hxs y hy
  · exact hx

theorem WordAt.push {header : Array Leaf} {i : ℕ} (h : WordAt header i) (l : Leaf) :
    WordAt (header.push l) i := by
  obtain ⟨l', hl', hw⟩ := h
  have hi : i ≠ header.size := by
    rintro rfl
    simp at hl'
  exact ⟨l', by rw [Array.getElem?_push, if_neg hi, hl'], hw⟩

theorem wordAt_push_size (header : Array Leaf) {l : Leaf} (hw : l.token.kind = .word) :
    WordAt (header.push l) header.size :=
  ⟨l, Array.getElem?_push_size, hw⟩

/-! ## Changing the type leaf -/

@[simp] theorem size_retype (header : Array Leaf) (i : ℕ) :
    (retype header i).size = header.size :=
  Array.size_modify

theorem map_token_retype (header : Array Leaf) (i : ℕ) :
    (retype header i).toList.map Leaf.token = header.toList.map Leaf.token := by
  apply List.ext_getElem?
  intro j
  rw [retype, Array.toList_modify, List.getElem?_map, List.getElem?_modify, List.getElem?_map]
  cases header.toList[j]? with
  | none => rfl
  | some l => by_cases hij : i = j <;> simp [hij]

theorem kindKept_of_mem_retype {header : Array Leaf} {i : ℕ} {l : Leaf}
    (hkept : ∀ l ∈ header, l.KindKept) (hi : ∀ l, header[i]? = some l → l.token.kind = .word)
    (hl : l ∈ retype header i) : l.KindKept := by
  obtain ⟨j, hj, rfl⟩ := Array.mem_iff_getElem.1 hl
  simp only [retype, Array.getElem_modify]
  have hj' : j < header.size := by simpa [retype] using hj
  split
  · subst i
    exact hi header[j] (Array.getElem?_eq_getElem hj')
  · exact hkept _ (Array.getElem_mem hj')

/-! ## Adding a token -/

variable {o : Outline} {tokens : List Token}

theorem Holds.addTrivia (h : o.Holds tokens) {l : Leaf} (hk : l.KindKept) :
    (o.addTrivia l).Holds (tokens ++ [l.token]) := by
  unfold Outline.addTrivia
  split
  · rename_i hname
    refine ⟨?_, h.nodes_kept, forall_mem_push h.header_kept hk, fun hn => ?_, fun i hi => ?_⟩
    · simp [← h.tokens_eq, Outline.tokens]
    · have hn : o.nameIndex = none := hn
      simp [hn] at hname
    · exact (h.word_at_name i hi).push l
  · rename_i hname
    have hnil := h.header_empty (by simpa using hname)
    refine ⟨?_, forall_mem_push h.nodes_kept hk, h.header_kept, h.header_empty, h.word_at_name⟩
    simp [← h.tokens_eq, Outline.tokens, hnil, Node.tokens]

theorem Holds.addWord (h : o.Holds tokens) {token : Token} (hk : token.kind = .word) (line : ℕ) :
    (o.addWord token line).Holds (tokens ++ [token]) := by
  unfold Outline.addWord
  split
  · refine ⟨?_, h.nodes_kept, forall_mem_push h.header_kept hk, fun hn => by simp at hn, ?_⟩
    · simp [← h.tokens_eq, Outline.tokens]
    · rintro i hi
      obtain rfl := Option.some.inj hi
      exact wordAt_push_size o.header hk
  · rename_i first hfirst _
    obtain ⟨l, hl, hw⟩ := h.word_at_name first hfirst
    have hretype : ∀ l ∈ retype o.header first, l.KindKept := fun l' hl' =>
      kindKept_of_mem_retype h.header_kept
        (fun l'' hl'' => by rw [← Option.some.inj (hl.symm.trans hl''), hw]) hl'
    refine ⟨?_, h.nodes_kept, forall_mem_push hretype hk, fun hn => by simp at hn, ?_⟩
    · simp [← h.tokens_eq, Outline.tokens, map_token_retype]
    · intro i hi
      obtain rfl := Option.some.inj hi
      rw [← size_retype o.header first]
      exact wordAt_push_size _ hk
  · rename_i first _ hfirst _
    refine ⟨?_, h.nodes_kept, forall_mem_push h.header_kept hk, fun hn => ?_, fun i hi => ?_⟩
    · simp [← h.tokens_eq, Outline.tokens]
    · simp [hfirst] at hn
    · exact (h.word_at_name i hi).push _

theorem Holds.addBlock (h : o.Holds tokens) {token : Token} (hk : token.kind = .bracedBlock)
    (line : ℕ) : (o.addBlock token line).Holds (tokens ++ [token]) := by
  unfold Outline.addBlock
  split
  · rename_i hname
    have hnil := h.header_empty (by simpa using hname)
    refine ⟨?_, forall_mem_push h.nodes_kept ?_, h.header_kept, h.header_empty, h.word_at_name⟩
    · simp [← h.tokens_eq, Outline.tokens, hnil, Node.tokens, Block.tokens]
    · exact ⟨by simp, hk⟩
  · refine ⟨?_, forall_mem_push h.nodes_kept ?_, by simp, fun _ => rfl, by simp⟩
    · simp [← h.tokens_eq, Outline.tokens, Node.tokens, Block.tokens]
    · exact ⟨h.header_kept, hk⟩

theorem Holds.add (h : o.Holds tokens) (lexeme : Lexeme) :
    (o.add lexeme).Holds (tokens ++ [lexeme.token]) := by
  have h' :
      ({ o with diagnostics := o.diagnostics ++ lexeme.diagnostics } : Outline).Holds tokens :=
    ⟨h.tokens_eq, h.nodes_kept, h.header_kept, h.header_empty, h.word_at_name⟩
  unfold Outline.add
  cases hk : lexeme.token.kind with
  | whitespace => exact h'.addTrivia hk
  | lineComment => exact h'.addTrivia (.inl hk)
  | blockComment => exact h'.addTrivia (.inr hk)
  | word => exact h'.addWord hk _
  | bracedBlock => exact h'.addBlock hk _

theorem Holds.foldl_add (h : o.Holds tokens) (lexemes : List Lexeme) :
    (lexemes.foldl Outline.add o).Holds (tokens ++ lexemes.map Lexeme.token) := by
  induction lexemes generalizing o tokens with
  | nil => simpa using h
  | cons lexeme lexemes ih => simpa using ih (h.add lexeme)

theorem Holds.finish (h : o.Holds tokens) :
    o.finish.1.tokens = tokens ∧ o.finish.1.KindsKept := by
  unfold Outline.finish
  split
  · rename_i hnil
    rw [Array.isEmpty_iff] at hnil
    refine ⟨?_, fun node hnode => h.nodes_kept node (Array.mem_def.2 hnode)⟩
    simp [← h.tokens_eq, Outline.tokens, hnil, SyntaxTree.tokens]
  · have hleaves : (o.header.toList.map Node.leaf).flatMap Node.tokens =
        o.header.toList.map Leaf.token := by
      rw [List.flatMap_map, List.map_eq_flatMap]
      rfl
    refine ⟨?_, fun node hnode => ?_⟩
    · simp [← h.tokens_eq, Outline.tokens, SyntaxTree.tokens, hleaves]
    · rcases List.mem_append.1 hnode with hnode | hnode
      · exact h.nodes_kept node (Array.mem_def.2 hnode)
      · obtain ⟨l, hl, rfl⟩ := List.mem_map.1 hnode
        exact h.header_kept l (Array.mem_def.2 hl)

theorem ofLexemes_spec (lexemes : List Lexeme) :
    (ofLexemes lexemes).1.tokens = lexemes.map Lexeme.token ∧ (ofLexemes lexemes).1.KindsKept :=
  (holds_empty.foldl_add lexemes).finish

end Outline

/-! ## The tree of a text -/

namespace SyntaxTree

theorem readFrom_of_shows {γ : Type} [Cursor γ] {c : γ} {chars : List Char}
    (h : Cursor.Shows c chars) :
    readFrom c = (Outline.ofLexemes (lexemesFrom 1 chars), Cursor.advance^[chars.length] c) := by
  rw [readFrom, Tokenizer.run_of_shows h]
  rfl

theorem read_eq (text : String) : read text = Outline.ofLexemes (lexemesFrom 1 text.toList) := by
  rw [read, readFrom_of_shows (TextCursor.shows_ofString text)]

theorem render_parse (text : String) : (parse text).render = text := by
  rw [render, Token.concat_eq_iff, parse, read_eq, (Outline.ofLexemes_spec _).1]
  exact (lexemesFrom_spec 1 text.toList).1

theorem tokens_parse (text : String) : (parse text).tokens = tokenize text := by
  rw [parse, read_eq, (Outline.ofLexemes_spec _).1, tokenize_eq]

theorem kindsKept_parse (text : String) : (parse text).KindsKept := by
  rw [parse, read_eq]
  exact (Outline.ofLexemes_spec _).2

/-- The tree of a text has exactly the tokens of the text in leaves of their kinds, so that it
renders to the text and is read back from it. -/
theorem parse_lossless (text : String) :
    (parse text).tokens = tokenize text ∧ (parse text).KindsKept ∧
      (parse text).render = text ∧ parse (parse text).render = parse text := by
  obtain ⟨htokens, hkinds⟩ := Outline.ofLexemes_spec (lexemesFrom 1 text.toList)
  rw [← read_eq] at htokens hkinds
  refine ⟨?_, hkinds, render_parse text, by rw [render_parse]⟩
  rw [tokenize_eq]
  exact htokens

end SyntaxTree

end AssetDecl
