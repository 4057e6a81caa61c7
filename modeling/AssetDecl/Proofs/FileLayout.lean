import AssetDecl.Proofs.LosslessTree

/-!
# The layout of a file

A file is a sequence of sections, each a block with what stands in front of it, and a rest without
a block (`Layout`). A header goes from its first identifier up to the brace, and `Headed` says which
of its leaves are type and name. Every token keeps the tree under construction to a layout
(`Outline.Follows.add`), and so each text has one that its tree follows
(`SyntaxTree.exists_layout`).
-/

namespace AssetDecl

/-! ## Headers -/

namespace Token

/-- Blanks and comments. -/
def IsTrivia (token : Token) : Prop :=
  token.kind = .whitespace ∨ token.kind.isComment

/-- The leaf of a token that is neither the type nor the name of a block. -/
def leaf (token : Token) : Leaf where
  token := token
  kind := match token.kind with
    | .whitespace => .whitespace
    | .lineComment | .blockComment => .comment
    | .word | .bracedBlock => .surplus

variable {token : Token}

theorem IsTrivia.kind_ne_word (h : token.IsTrivia) : token.kind ≠ .word := by
  intro hk
  simp [IsTrivia, hk, TokenKind.isComment] at h

theorem IsTrivia.kind_ne_bracedBlock (h : token.IsTrivia) : token.kind ≠ .bracedBlock := by
  intro hk
  simp [IsTrivia, hk, TokenKind.isComment] at h

theorem kind_of_mem_map_leaf {tokens : List Token} {l : Leaf} (hl : l ∈ tokens.map leaf) :
    l.kind ≠ .nameWord ∧ l.kind ≠ .typeWord := by
  obtain ⟨token, -, rfl⟩ := List.mem_map.mp hl
  unfold leaf
  cases token.kind <;> simp

end Token

/-- The tokens of a header from its first identifier on, their leaves, and where the name and the
type stand. -/
inductive Headed : List Token → List Leaf → Option ℕ → Option ℕ → Prop where
  | empty : Headed [] [] none none
  /-- A single identifier is the name. -/
  | named {name : Token} {rest : List Token} (hname : name.kind = .word)
    (hrest : ∀ token ∈ rest, token.IsTrivia) :
    Headed (name :: rest) (⟨.nameWord, name⟩ :: rest.map Token.leaf) (some 0) none
  /-- Of several identifiers the first one is the type, the second one the name, and others are
  surplus. -/
  | typed {type name : Token} {gap rest : List Token} (htype : type.kind = .word)
    (hgap : ∀ token ∈ gap, token.IsTrivia) (hname : name.kind = .word)
    (hrest : ∀ token ∈ rest, token.kind ≠ .bracedBlock) :
    Headed (type :: gap ++ name :: rest)
      (⟨.typeWord, type⟩ :: gap.map Token.leaf ++ ⟨.nameWord, name⟩ :: rest.map Token.leaf)
      (some (gap.length + 1)) (some 0)

/-- The index of the only leaf of a kind. -/
theorem some_length_eq_some_iff (front : List Leaf) (l : Leaf) {back : List Leaf}
    (hfront : ∀ l' ∈ front, l'.kind ≠ l.kind) (hback : ∀ l' ∈ back, l'.kind ≠ l.kind) (i : ℕ) :
    some front.length = some i ↔ ∃ l', (front ++ l :: back)[i]? = some l' ∧ l'.kind = l.kind := by
  rw [Option.some_inj]
  constructor
  · rintro rfl
    exact ⟨l, by simp, rfl⟩
  · rintro ⟨l', hl', hkind⟩
    rcases lt_trichotomy i front.length with hlt | heq | hgt
    · rw [List.getElem?_append_left hlt] at hl'
      exact absurd hkind (hfront l' (List.mem_of_getElem? hl'))
    · exact heq.symm
    · obtain ⟨j, rfl⟩ : ∃ j, i = front.length + (j + 1) := ⟨i - front.length - 1, by omega⟩
      rw [List.getElem?_append_right (Nat.le_add_right _ _), Nat.add_sub_cancel_left,
        List.getElem?_cons_succ] at hl'
      exact absurd hkind (hback l' (List.mem_of_getElem? hl'))

namespace Headed

variable {tokens : List Token} {leaves : List Leaf} {nameIndex typeIndex : Option ℕ}

/-- The name is the only leaf of its kind. -/
theorem nameIndex_eq_some_iff (h : Headed tokens leaves nameIndex typeIndex) (i : ℕ) :
    nameIndex = some i ↔ ∃ l, leaves[i]? = some l ∧ l.kind = .nameWord := by
  cases h with
  | empty => simp
  | @named name rest _ _ =>
    refine some_length_eq_some_iff [] ⟨.nameWord, name⟩ (by simp) ?_ i
    exact fun l hl => (Token.kind_of_mem_map_leaf hl).1
  | @typed type name gap rest _ _ _ _ =>
    have hfront : ∀ l ∈ (⟨.typeWord, type⟩ :: gap.map Token.leaf : List Leaf),
        l.kind ≠ .nameWord := by
      rintro l (_ | ⟨_, hl⟩)
      · simp
      · exact (Token.kind_of_mem_map_leaf hl).1
    have hback : ∀ l ∈ rest.map Token.leaf, l.kind ≠ .nameWord :=
      fun l hl => (Token.kind_of_mem_map_leaf hl).1
    simpa using some_length_eq_some_iff _ ⟨.nameWord, name⟩ hfront hback i

/-- The type is the only leaf of its kind. -/
theorem typeIndex_eq_some_iff (h : Headed tokens leaves nameIndex typeIndex) (i : ℕ) :
    typeIndex = some i ↔ ∃ l, leaves[i]? = some l ∧ l.kind = .typeWord := by
  cases h with
  | empty => simp
  | @named name rest _ _ =>
    constructor
    · simp
    · rintro ⟨l, hl, hkind⟩
      rcases List.mem_cons.mp (List.mem_of_getElem? hl) with rfl | hl
      · simp at hkind
      · exact absurd hkind (Token.kind_of_mem_map_leaf hl).2
  | @typed type name gap rest _ _ _ _ =>
    refine some_length_eq_some_iff [] ⟨.typeWord, type⟩ (by simp) ?_ i
    intro l hl
    rcases List.mem_append.mp hl with hl | hl
    · exact (Token.kind_of_mem_map_leaf hl).2
    · rcases List.mem_cons.mp hl with rfl | hl
      · simp
      · exact (Token.kind_of_mem_map_leaf hl).2

theorem nameIndex_eq_none_iff (h : Headed tokens leaves nameIndex typeIndex) :
    nameIndex = none ↔ tokens = [] := by
  cases h <;> simp

theorem leaves_eq_nil_iff (h : Headed tokens leaves nameIndex typeIndex) :
    leaves = [] ↔ tokens = [] := by
  cases h <;> simp

/-- A header that is not empty starts with an identifier. -/
theorem kind_head (h : Headed tokens leaves nameIndex typeIndex) {token : Token}
    (htoken : tokens.head? = some token) : token.kind = .word := by
  cases h with
  | empty => simp at htoken
  | named hname _ => simpa [← Option.some.inj htoken] using hname
  | typed htype _ _ _ => simpa [← Option.some.inj htoken] using htype

/-- Blanks and comments are added to a header that has begun. -/
theorem concat_trivia (h : Headed tokens leaves nameIndex typeIndex) {token : Token}
    (hne : tokens ≠ []) (htrivia : token.IsTrivia) :
    Headed (tokens ++ [token]) (leaves ++ [token.leaf]) nameIndex typeIndex := by
  cases h with
  | empty => exact absurd rfl hne
  | @named name rest hname hrest =>
    have hmore : ∀ other ∈ rest ++ [token], other.IsTrivia :=
      List.forall_mem_append.mpr ⟨hrest, List.forall_mem_singleton.mpr htrivia⟩
    simpa using named hname hmore
  | @typed type name gap rest htype hgap hname hrest =>
    have hmore : ∀ other ∈ rest ++ [token], other.kind ≠ .bracedBlock :=
      List.forall_mem_append.mpr ⟨hrest, List.forall_mem_singleton.mpr htrivia.kind_ne_bracedBlock⟩
    simpa using typed htype hgap hname hmore

/-- A further identifier behind the name is surplus. -/
theorem concat_surplus {first : ℕ} (h : Headed tokens leaves nameIndex (some first)) {token : Token}
    (hword : token.kind = .word) :
    Headed (tokens ++ [token]) (leaves ++ [⟨.surplus, token⟩]) nameIndex (some first) := by
  cases h with
  | @typed type name gap rest htype hgap hname hrest =>
    have hmore : ∀ other ∈ rest ++ [token], other.kind ≠ .bracedBlock :=
      List.forall_mem_append.mpr ⟨hrest, List.forall_mem_singleton.mpr (by simp [hword])⟩
    have hleaf : token.leaf = ⟨.surplus, token⟩ := by simp [Token.leaf, hword]
    simpa [hleaf] using typed htype hgap hname hmore

end Headed

/-! ## Layouts -/

/-- A block with what stands in front of it, from the block before that or the start of the file on:
blanks and comments that belong to no header, and then its header. -/
structure Section where
  gap : List Token
  header : List Token
  block : Block
  gap_trivia : ∀ token ∈ gap, token.IsTrivia
  headed : Headed header block.header.toList block.nameIndex block.typeIndex
  body_kind : block.body.kind = .bracedBlock

namespace Section

def tokens (s : Section) : List Token :=
  s.gap ++ s.header ++ [s.block.body]

def nodes (s : Section) : List Node :=
  s.gap.map (fun token => .leaf token.leaf) ++ [.block s.block]

/-- Only a block without an identifier in front of it has an empty header. -/
theorem header_eq_empty_iff (s : Section) :
    s.block.header = #[] ↔ ∀ token ∈ s.gap ++ s.header, token.kind ≠ .word := by
  rw [← Array.toList_eq_nil_iff, s.headed.leaves_eq_nil_iff]
  constructor
  · intro hnil token htoken
    rw [hnil, List.append_nil] at htoken
    exact (s.gap_trivia token htoken).kind_ne_word
  · intro hwords
    by_contra hne
    obtain ⟨token, rest, hheader⟩ := List.exists_cons_of_ne_nil hne
    refine hwords token ?_ (s.headed.kind_head (by rw [hheader]; rfl))
    exact List.mem_append_right _ (hheader ▸ List.mem_cons_self)

end Section

/-- The sections of a file, and what stands behind its last block. -/
structure Layout where
  sections : List Section
  gap : List Token
  /-- A header that no block follows. -/
  header : List Token
  gap_trivia : ∀ token ∈ gap, token.IsTrivia

namespace Layout

/-- The tokens in front of the header that no block follows. -/
def front (y : Layout) : List Token :=
  y.sections.flatMap Section.tokens ++ y.gap

def tokens (y : Layout) : List Token :=
  y.front ++ y.header

/-- The nodes in front of the header that no block follows. -/
def nodes (y : Layout) : List Node :=
  y.sections.flatMap Section.nodes ++ y.gap.map fun token => .leaf token.leaf

end Layout

namespace Outline

/-- The nodes and the header under construction are those of the layout. -/
structure Follows (o : Outline) (y : Layout) : Prop where
  nodes : o.nodes.toList = y.nodes
  headed : Headed y.header o.header.toList o.nameIndex o.typeIndex

variable {o : Outline} {y : Layout} {token : Token}

theorem follows_empty : Follows {} ⟨[], [], [], by simp⟩ :=
  ⟨rfl, .empty⟩

/-- A token was added to what a layout lays out. -/
def Grown (o : Outline) (y : Layout) (token : Token) : Prop :=
  ∃ y' : Layout, o.Follows y' ∧ y'.tokens = y.tokens ++ [token]

theorem Follows.addTrivia (h : o.Follows y) (htrivia : token.IsTrivia) :
    Grown (o.addTrivia token.leaf) y token := by
  unfold Outline.addTrivia
  split
  · rename_i hname
    have hne : y.header ≠ [] := by
      rw [Ne, ← h.headed.nameIndex_eq_none_iff]
      exact Option.isSome_iff_ne_none.mp hname
    refine ⟨{ y with header := y.header ++ [token] }, ⟨h.nodes, ?_⟩, ?_⟩
    · simpa using h.headed.concat_trivia hne htrivia
    · simp [Layout.tokens, Layout.front]
  · rename_i hname
    have hnil : y.header = [] := h.headed.nameIndex_eq_none_iff.mp (by simpa using hname)
    have hgap : ∀ other ∈ y.gap ++ [token], other.IsTrivia :=
      List.forall_mem_append.mpr ⟨y.gap_trivia, List.forall_mem_singleton.mpr htrivia⟩
    refine ⟨{ y with gap := y.gap ++ [token], gap_trivia := hgap }, ⟨?_, h.headed⟩, ?_⟩
    · simp [h.nodes, Layout.nodes]
    · simp [Layout.tokens, Layout.front, hnil]

/-- The second identifier makes the first one the type. -/
theorem headed_addWord {tokens : List Token}
    (h : Headed tokens o.header.toList o.nameIndex o.typeIndex) (hword : token.kind = .word)
    (line : ℕ) :
    Headed (tokens ++ [token]) (o.addWord token line).header.toList (o.addWord token line).nameIndex
      (o.addWord token line).typeIndex := by
  obtain ⟨nodes, ⟨leaves⟩, headerLine, nameIndex, typeIndex, diagnostics⟩ := o
  cases h with
  | empty => exact .named hword (by simp)
  | @named name rest hname hrest =>
    have hnil : ∀ other ∈ ([] : List Token), other.kind ≠ .bracedBlock := by simp
    simpa [addWord, retype] using Headed.typed hname hrest hword hnil
  | @typed type name gap rest htype hgap hname hrest =>
    have hsurplus := (Headed.typed htype hgap hname hrest).concat_surplus hword
    simpa [addWord] using hsurplus

theorem Follows.addWord (h : o.Follows y) (hword : token.kind = .word) (line : ℕ) :
    Grown (o.addWord token line) y token := by
  refine ⟨{ y with header := y.header ++ [token] }, ⟨?_, headed_addWord h.headed hword line⟩, ?_⟩
  · unfold Outline.addWord
    split <;> exact h.nodes
  · simp [Layout.tokens, Layout.front]

/-- With or without a header, a block takes the header there is and leaves none. -/
theorem addBlock_of_headed {tokens : List Token}
    (h : Headed tokens o.header.toList o.nameIndex o.typeIndex) (token : Token) (line : ℕ) :
    (o.addBlock token line).nodes =
        o.nodes.push (.block ⟨o.header, token, o.nameIndex, o.typeIndex⟩) ∧
      Headed [] (o.addBlock token line).header.toList (o.addBlock token line).nameIndex
        (o.addBlock token line).typeIndex := by
  obtain ⟨nodes, ⟨leaves⟩, headerLine, nameIndex, typeIndex, diagnostics⟩ := o
  cases h with
  | empty => exact ⟨rfl, .empty⟩
  | named _ _ => exact ⟨rfl, .empty⟩
  | typed _ _ _ _ => exact ⟨rfl, .empty⟩

theorem Follows.addBlock (h : o.Follows y) (hbody : token.kind = .bracedBlock) (line : ℕ) :
    Grown (o.addBlock token line) y token := by
  obtain ⟨hnodes, hheaded⟩ := addBlock_of_headed h.headed token line
  let closed : Section :=
    { gap := y.gap
      header := y.header
      block := ⟨o.header, token, o.nameIndex, o.typeIndex⟩
      gap_trivia := y.gap_trivia
      headed := h.headed
      body_kind := hbody }
  refine ⟨⟨y.sections ++ [closed], [], [], by simp⟩, ⟨?_, hheaded⟩, ?_⟩
  · simp [hnodes, h.nodes, Layout.nodes, Section.nodes, closed]
  · simp [Layout.tokens, Layout.front, Section.tokens, closed]

/-- The outline with what the tokenizer reports of a token. -/
def noted (o : Outline) (lexeme : Lexeme) : Outline :=
  { o with diagnostics := o.diagnostics ++ lexeme.diagnostics }

/-- All that adding a token can do. -/
theorem add_cases (o : Outline) (lexeme : Lexeme) :
    (lexeme.token.IsTrivia ∧ o.add lexeme = (o.noted lexeme).addTrivia lexeme.token.leaf) ∨
      (lexeme.token.kind = .word ∧
        o.add lexeme = (o.noted lexeme).addWord lexeme.token lexeme.line) ∨
      (lexeme.token.kind = .bracedBlock ∧
        o.add lexeme = (o.noted lexeme).addBlock lexeme.token lexeme.line) := by
  obtain ⟨⟨kind, text⟩, line, problem⟩ := lexeme
  cases kind with
  | whitespace => exact .inl ⟨.inl rfl, rfl⟩
  | lineComment => exact .inl ⟨.inr rfl, rfl⟩
  | blockComment => exact .inl ⟨.inr rfl, rfl⟩
  | word => exact .inr (.inl ⟨rfl, rfl⟩)
  | bracedBlock => exact .inr (.inr ⟨rfl, rfl⟩)

theorem Follows.add (h : o.Follows y) (lexeme : Lexeme) : Grown (o.add lexeme) y lexeme.token := by
  have h' : (o.noted lexeme).Follows y := ⟨h.nodes, h.headed⟩
  rcases o.add_cases lexeme with ⟨htrivia, hadd⟩ | ⟨hword, hadd⟩ | ⟨hblock, hadd⟩
  · exact hadd ▸ h'.addTrivia htrivia
  · exact hadd ▸ h'.addWord hword lexeme.line
  · exact hadd ▸ h'.addBlock hblock lexeme.line

/-- The outline of some tokens follows a layout of these tokens. -/
theorem exists_follows (lexemes : List Lexeme) :
    ∃ y : Layout, (lexemes.foldl Outline.add {}).Follows y ∧
      y.tokens = lexemes.map Lexeme.token := by
  induction lexemes using List.reverseRecOn with
  | nil => exact ⟨_, follows_empty, rfl⟩
  | append_singleton lexemes lexeme ih =>
    obtain ⟨y, hfollows, htokens⟩ := ih
    obtain ⟨y', hfollows', htokens'⟩ := hfollows.add lexeme
    refine ⟨y', ?_, ?_⟩
    · rwa [List.foldl_append]
    · rw [htokens', htokens, List.map_append]
      rfl

theorem Follows.children_finish (h : o.Follows y) :
    o.finish.1.children = y.nodes ++ o.header.toList.map .leaf := by
  unfold Outline.finish
  split
  · rename_i hnil
    rw [Array.isEmpty_iff] at hnil
    simp [h.nodes, hnil]
  · simp [h.nodes]

end Outline

/-! ## The layout of a text -/

namespace Block

variable {b : Block} {kind : LeafKind}

/-- The text at the index of the only leaf of a kind. -/
theorem textAt_eq_some_iff {index : Option ℕ}
    (hindex : ∀ i, index = some i ↔ ∃ l, b.header[i]? = some l ∧ l.kind = kind) (text : String) :
    b.textAt index = some text ↔ ∃ l ∈ b.header, l.kind = kind ∧ l.token.text = text := by
  constructor
  · intro htext
    obtain ⟨i, rfl, hleaf⟩ := Option.bind_eq_some_iff.mp htext
    obtain ⟨l, hl, htext⟩ := Option.bind_eq_some_iff.mp hleaf
    obtain ⟨l', hl', hkind⟩ := (hindex i).mp rfl
    obtain rfl := Option.some.inj (hl.symm.trans hl')
    exact ⟨l, Array.mem_of_getElem? hl, hkind, Option.some.inj htext⟩
  · rintro ⟨l, hl, hkind, rfl⟩
    obtain ⟨i, hi⟩ := Array.mem_iff_getElem?.mp hl
    rw [(hindex i).mpr ⟨l, hi, hkind⟩]
    simp [textAt, hi]

end Block

namespace Section

variable (s : Section)

theorem nameIndex_eq_some_iff (i : ℕ) :
    s.block.nameIndex = some i ↔ ∃ l, s.block.header[i]? = some l ∧ l.kind = .nameWord := by
  rw [s.headed.nameIndex_eq_some_iff, Array.getElem?_toList]

theorem typeIndex_eq_some_iff (i : ℕ) :
    s.block.typeIndex = some i ↔ ∃ l, s.block.header[i]? = some l ∧ l.kind = .typeWord := by
  rw [s.headed.typeIndex_eq_some_iff, Array.getElem?_toList]

end Section

/-- The blocks of nodes that follow a layout are those of its sections. -/
theorem Layout.exists_section_of_mem {y : Layout} {b : Block} {leaves : List Leaf}
    (hb : b ∈ (SyntaxTree.mk (y.nodes ++ leaves.map .leaf)).blocks) :
    ∃ s ∈ y.sections, s.block = b := by
  obtain ⟨node, hnode, hb⟩ := List.mem_filterMap.mp hb
  cases node with
  | leaf l => simp [Node.block?] at hb
  | block b' =>
    obtain rfl := Option.some.inj hb
    simpa [Layout.nodes, Section.nodes, eq_comm] using hnode

namespace SyntaxTree

/-- A text is laid out in sections, each with a block, and a rest. The header of a block goes from
the first identifier in front of it up to its brace, and is empty if there is none. Outside headers
and blocks the tree has blanks and comments, and at its end the leaves of a header that no block
follows. The indices of a block are those of the leaves for its name and its type, whose texts are
its name and its keyword. -/
theorem exists_layout (text : String) :
    ∃ (y : Layout) (leaves : List Leaf) (nameIndex typeIndex : Option ℕ),
      tokenize text = y.tokens ∧
      Headed y.header leaves nameIndex typeIndex ∧
      (parse text).children = y.nodes ++ leaves.map .leaf ∧
      (∀ s ∈ y.sections,
        s.block.header = #[] ↔ ∀ token ∈ s.gap ++ s.header, token.kind ≠ .word) ∧
      ∀ b ∈ (parse text).blocks,
        (∀ i, b.nameIndex = some i ↔ ∃ l, b.header[i]? = some l ∧ l.kind = .nameWord) ∧
        (∀ i, b.typeIndex = some i ↔ ∃ l, b.header[i]? = some l ∧ l.kind = .typeWord) ∧
        (∀ name, b.name = some name ↔
          ∃ l ∈ b.header, l.kind = .nameWord ∧ l.token.text = name) ∧
        ∀ keyword, b.keyword = some keyword ↔
          ∃ l ∈ b.header, l.kind = .typeWord ∧ l.token.text = keyword := by
  obtain ⟨y, hfollows, htokens⟩ := Outline.exists_follows (lexemesFrom 1 text.toList)
  have hchildren : (parse text).children = y.nodes ++ _ :=
    (congrArg (·.1.children) (read_eq text)).trans hfollows.children_finish
  refine ⟨y, _, _, _, ?_, hfollows.headed, hchildren, fun s _ => s.header_eq_empty_iff, ?_⟩
  · rw [tokenize_eq, htokens]
  · intro b hb
    rw [show parse text = ⟨_⟩ from congrArg SyntaxTree.mk hchildren] at hb
    obtain ⟨s, -, rfl⟩ := Layout.exists_section_of_mem hb
    exact ⟨s.nameIndex_eq_some_iff, s.typeIndex_eq_some_iff,
      Block.textAt_eq_some_iff s.nameIndex_eq_some_iff,
      Block.textAt_eq_some_iff s.typeIndex_eq_some_iff⟩

end SyntaxTree

end AssetDecl
