import AssetDecl.Proofs.FileLayout
import AssetDecl.Proofs.OpenTokens
import Mathlib.Data.List.DropRight

/-!
# Reported problems

What is wrong with a text can be read off its tree: a leaf or the braces of a block tell their own
problems (`Place.problems`), and the line of each is that of its token (`lineAt`). The diagnostics
of a text are just these, in document order, and one more for a header that no block follows
(`SyntaxTree.read_diagnostics`).
-/

namespace AssetDecl

/-! ## Places of a tree -/

/-- Where a token stands in a tree. -/
inductive Place where
  | leaf (l : Leaf)
  /-- The braces of a block. -/
  | body (b : Block)
  deriving DecidableEq

namespace Place

def token : Place → Token
  | leaf l => l.token
  | body b => b.body

/-- What is wrong at a place: a token that is not closed, then a surplus identifier or a block
without a name. -/
def problems : Place → List Problem
  | leaf l =>
    l.token.openProblem.toList ++
      if l.kind = .surplus then [.extraHeaderWord l.token.text] else []
  | body b =>
    b.body.openProblem.toList ++ if b.name = none then [.anonymousBlock] else []

theorem mem_problems_of_open (place : Place) {problem : Problem}
    (h : place.token.openProblem = some problem) : problem ∈ place.problems := by
  cases place with
  | leaf l => exact List.mem_append_left _ (Option.mem_toList.mpr h)
  | body b => exact List.mem_append_left _ (Option.mem_toList.mpr h)

end Place

def Node.places : Node → List Place
  | leaf l => [.leaf l]
  | block b => b.header.toList.map .leaf ++ [.body b]

/-- The places of all tokens, in document order. -/
def SyntaxTree.places (tree : SyntaxTree) : List Place :=
  tree.children.flatMap Node.places

theorem Node.map_token_places (node : Node) : node.places.map Place.token = node.tokens := by
  cases node with
  | leaf l => rfl
  | block b => simp [places, tokens, Block.tokens, Function.comp_def, Place.token]

theorem SyntaxTree.map_token_places (tree : SyntaxTree) :
    tree.places.map Place.token = tree.tokens := by
  rw [places, List.map_flatMap, tokens]
  exact List.flatMap_congr fun node _ => node.map_token_places

/-! ## Lines -/

/-- The line that a token starts on: one more than the line feeds in front of it. -/
def lineAt (tokens : List Token) (i : ℕ) : ℕ :=
  1 + Text.lineFeeds ((tokens.take i).flatMap Token.chars)

/-- The diagnostics of problems on one line. -/
def report (problems : List Problem) (line : ℕ) : List Diagnostic :=
  problems.map (⟨·, line⟩)

/-- Each token of a text is on the line of the characters in front of it. -/
theorem line_of_lexemesFrom {line : ℕ} {chars : List Char} {i : ℕ} {lexeme : Lexeme}
    (h : (lexemesFrom line chars)[i]? = some lexeme) :
    lexeme.line = line + Text.lineFeeds
      ((((lexemesFrom line chars).map Lexeme.token).take i).flatMap Token.chars) := by
  fun_induction lexemesFrom line chars generalizing i with
  | case1 => simp at h
  | case2 line ch rest k =>
    rename_i ih
    cases i with
    | zero => simpa [Cut.lexeme] using (congrArg Lexeme.line (Option.some.inj h)).symm
    | succ i =>
      rw [ih h, List.map_cons, List.take_succ_cons, List.flatMap_cons, Text.lineFeeds_append,
        Cut.chars_lexeme, Nat.add_assoc]

theorem TextCursor.chars_of_shows {c : TextCursor} {chars : List Char}
    (h : Cursor.Shows c chars) : c.chars = chars := by
  induction h with
  | @nil c hc => exact List.head?_eq_none_iff.mp hc
  | @cons c ch rest hc _ _ ih =>
    obtain ⟨others, hothers⟩ := List.head?_eq_some_iff.mp hc
    obtain ⟨chars, offset⟩ := c
    obtain rfl : chars = ch :: others := hothers
    exact congrArg (ch :: ·) ih

namespace Tokenizer

variable {γ : Type} [Cursor γ]

/-- The tokenizer past the next `n` tokens, none if there are not so many. -/
def skip : ℕ → Tokenizer γ → Option (Tokenizer γ)
  | 0, t => some t
  | n + 1, t => t.next?.bind fun (_, t') => skip n t'

/-- The line counts the line feeds of the tokens handed out, and the cursor shows the characters
behind them. -/
theorem exists_skip_of_shows {t : Tokenizer γ} {chars : List Char}
    (h : Cursor.Shows t.cursor chars) {n : ℕ} (hn : n ≤ (lexemesFrom t.line chars).length) :
    ∃ t' left, t.skip n = some t' ∧ Cursor.Shows t'.cursor left ∧
      (((lexemesFrom t.line chars).map Lexeme.token).take n).flatMap Token.chars ++ left = chars ∧
      t'.line = t.line + Text.lineFeeds
        ((((lexemesFrom t.line chars).map Lexeme.token).take n).flatMap Token.chars) := by
  induction n generalizing t chars with
  | zero => exact ⟨t, chars, rfl, h, rfl, rfl⟩
  | succ n ih =>
    obtain _ | ⟨ch, rest⟩ := chars
    · simp at hn
    · have happ := Mode.taken_append_left Mode.start (ch :: rest)
      have hleft := h.advance_iterate (Mode.length_cut_taken_le Mode.start (ch :: rest))
      rw [← Mode.cut_left_eq_drop] at hleft
      obtain ⟨next, hnext, hshows, hline⟩ : ∃ next, t.next? = some (_, next) ∧
          Cursor.Shows next.cursor (Mode.start.cut (ch :: rest)).left ∧
            next.line = t.line + Text.lineFeeds (Mode.start.cut (ch :: rest)).taken :=
        ⟨_, next?_of_shows_cons h, hleft, rfl⟩
      rw [lexemesFrom_cons, ← hline] at hn ⊢
      obtain ⟨t', left, hskip, hshows', hchars, hline'⟩ :=
        ih hshows (Nat.le_of_succ_le_succ hn)
      refine ⟨t', left, ?_, hshows', ?_, ?_⟩
      · rw [skip, hnext]
        exact hskip
      · rw [List.map_cons, List.take_succ_cons, List.flatMap_cons, Cut.chars_lexeme,
          List.append_assoc, hchars, happ]
      · rw [List.map_cons, List.take_succ_cons, List.flatMap_cons, Cut.chars_lexeme,
          Text.lineFeeds_append, hline', hline, Nat.add_assoc]

end Tokenizer

/-! ## Problems of an outline -/

/-- A block has a name if it has an index for it. -/
theorem Headed.name_eq_none_iff {tokens : List Token} {b : Block}
    (h : Headed tokens b.header.toList b.nameIndex b.typeIndex) :
    b.name = none ↔ b.nameIndex = none := by
  constructor
  · intro hnone
    by_contra hsome
    obtain ⟨i, hi⟩ := Option.ne_none_iff_exists'.mp hsome
    obtain ⟨l, hl, -⟩ := (h.nameIndex_eq_some_iff i).mp hi
    rw [Array.getElem?_toList] at hl
    simp [Block.name, Block.textAt, hi, hl] at hnone
  · intro hnone
    rw [Block.name, hnone]
    rfl

namespace Outline

variable {o o' : Outline} {tokens : List Token} {lexemes : List Lexeme}

/-- The places of the nodes, then those of the header under construction. -/
def places (o : Outline) : List Place :=
  o.nodes.toList.flatMap Node.places ++ o.header.toList.map .leaf

/-- A token of line `line` was added, and has these problems besides not being closed. -/
structure Tells (o o' : Outline) (token : Token) (problems : List Problem) (line : ℕ) : Prop where
  places : o'.places.map Place.problems =
    o.places.map Place.problems ++ [token.openProblem.toList ++ problems]
  diagnostics : o'.diagnostics.toList = o.diagnostics.toList ++ report problems line

theorem tells_addTrivia {token : Token}
    (h : Headed tokens o.header.toList o.nameIndex o.typeIndex) (htrivia : token.IsTrivia)
    (line : ℕ) : Tells o (o.addTrivia token.leaf) token [] line := by
  have hproblems : Place.problems (.leaf token.leaf) = token.openProblem.toList ++ [] := by
    obtain ⟨kind, text⟩ := token
    cases kind <;> simp_all [Token.IsTrivia, TokenKind.isComment, Token.leaf, Place.problems]
  unfold addTrivia
  split
  · refine ⟨?_, (List.append_nil _).symm⟩
    rw [← hproblems]
    simp [places]
  · rename_i hname
    have hname : o.nameIndex = none := by simpa using hname
    have hnil : o.header = #[] := by
      rw [← Array.toList_eq_nil_iff, h.leaves_eq_nil_iff, ← h.nameIndex_eq_none_iff, hname]
    refine ⟨?_, (List.append_nil _).symm⟩
    rw [← hproblems]
    simp [places, hnil, Node.places]

/-- Making a leaf the type of a header changes nothing about its problems, unless it is surplus. -/
theorem problems_retype (header : Array Leaf) (i : ℕ)
    (h : ∀ l, header[i]? = some l → l.kind ≠ .surplus) :
    (retype header i).toList.map (Place.problems ∘ .leaf) =
      header.toList.map (Place.problems ∘ .leaf) := by
  apply List.ext_getElem?
  intro j
  rw [retype, Array.toList_modify, List.getElem?_map, List.getElem?_modify, List.getElem?_map,
    Array.getElem?_toList]
  by_cases hij : i = j
  · subst hij
    cases hl : header[i]? with
    | none => rfl
    | some l => simp [Place.problems, h l hl]
  · simp [hij]

theorem tells_addWord {token : Token}
    (h : Headed tokens o.header.toList o.nameIndex o.typeIndex) (hword : token.kind = .word)
    (line : ℕ) : ∃ problems, Tells o (o.addWord token line) token problems line := by
  have hclosed : token.openProblem = none :=
    Token.openProblem_eq_none (by simp [hword]) (by simp [hword])
  unfold addWord
  split
  · refine ⟨[], ?_, (List.append_nil _).symm⟩
    simp [places, Place.problems, hclosed]
  · rename_i first hfirst _
    have hsame := problems_retype o.header first <| by
      intro l hl hsurplus
      obtain ⟨l', hl', hname⟩ := (h.nameIndex_eq_some_iff first).mp hfirst
      rw [Array.getElem?_toList] at hl'
      obtain rfl := Option.some.inj (hl.symm.trans hl')
      simp [hsurplus] at hname
    refine ⟨[], ?_, (List.append_nil _).symm⟩
    simp [places, Place.problems, hclosed, hsame]
  · refine ⟨[.extraHeaderWord token.text], ?_, ?_⟩
    · simp [places, Place.problems, hclosed]
    · simp [report]

theorem tells_addBlock (h : Headed tokens o.header.toList o.nameIndex o.typeIndex) (token : Token)
    (line : ℕ) : ∃ problems, Tells o (o.addBlock token line) token problems line := by
  obtain ⟨hnodes, hheaded⟩ := addBlock_of_headed h token line
  have hname := Headed.name_eq_none_iff (b := ⟨o.header, token, o.nameIndex, o.typeIndex⟩) h
  refine ⟨if o.nameIndex = none then [.anonymousBlock] else [], ?_, ?_⟩
  · simp [places, hnodes, hheaded.leaves_eq_nil_iff.mpr rfl, Node.places, Place.problems, hname]
  · unfold addBlock
    cases o.nameIndex <;> simp [report]

/-- A token of a kind of its own, with what the tokenizer reports of it in front. -/
theorem exists_problems_add (h : Headed tokens o.header.toList o.nameIndex o.typeIndex)
    {lexeme : Lexeme} (hopen : lexeme.problem = lexeme.token.openProblem) :
    ∃ problems,
      (o.add lexeme).places.map Place.problems = o.places.map Place.problems ++ [problems] ∧
      (o.add lexeme).diagnostics.toList =
        o.diagnostics.toList ++ report problems lexeme.line := by
  have htells : ∃ problems,
      Tells (o.noted lexeme) (o.add lexeme) lexeme.token problems lexeme.line := by
    rcases o.add_cases lexeme with ⟨htrivia, hadd⟩ | ⟨hword, hadd⟩ | ⟨-, hadd⟩
    · exact hadd ▸ ⟨[], tells_addTrivia (o := o.noted lexeme) h htrivia lexeme.line⟩
    · exact hadd ▸ tells_addWord (o := o.noted lexeme) h hword lexeme.line
    · exact hadd ▸ tells_addBlock (o := o.noted lexeme) h lexeme.token lexeme.line
  obtain ⟨problems, hplaces, hdiagnostics⟩ := htells
  refine ⟨lexeme.token.openProblem.toList ++ problems, hplaces, ?_⟩
  rw [hdiagnostics]
  simp [noted, Lexeme.diagnostics, report, hopen]

/-! ## The line of a header -/

/-- A token of line `line` leaves no header, begins one, or goes on with the one there is. -/
inductive HeaderStep (o o' : Outline) (line : ℕ) : Prop where
  | none (h : o'.header = #[])
  | begun (h : o.header = #[]) (hsize : o'.header.size = 1) (hline : o'.headerLine = line)
  | continued (h : o.header ≠ #[]) (hsize : o'.header.size = o.header.size + 1)
    (hline : o'.headerLine = o.headerLine)

theorem header_eq_empty_iff (h : Headed tokens o.header.toList o.nameIndex o.typeIndex) :
    o.header = #[] ↔ o.nameIndex = none := by
  rw [← Array.toList_eq_nil_iff, h.leaves_eq_nil_iff, h.nameIndex_eq_none_iff]

theorem headerStep_addTrivia (h : Headed tokens o.header.toList o.nameIndex o.typeIndex) (l : Leaf)
    (line : ℕ) : HeaderStep o (o.addTrivia l) line := by
  have hempty := header_eq_empty_iff h
  unfold addTrivia
  split
  · rename_i hname
    refine .continued ?_ (Array.size_push l) rfl
    rw [Ne, hempty]
    exact Option.isSome_iff_ne_none.mp hname
  · rename_i hname
    exact .none (hempty.mpr (by simpa using hname))

theorem headerStep_addWord (h : Headed tokens o.header.toList o.nameIndex o.typeIndex)
    (token : Token) (line : ℕ) : HeaderStep o (o.addWord token line) line := by
  have hempty := header_eq_empty_iff h
  unfold addWord
  split
  · rename_i hname
    have hnil := hempty.mpr hname
    exact .begun hnil (by simp [hnil]) rfl
  · rename_i hname _
    exact .continued (by simp [hempty, hname]) (by simp) rfl
  · rename_i hname _
    exact .continued (by simp [hempty, hname]) (by simp) rfl

theorem headerStep_add (h : Headed tokens o.header.toList o.nameIndex o.typeIndex)
    (lexeme : Lexeme) : HeaderStep o (o.add lexeme) lexeme.line := by
  have hstep : HeaderStep (o.noted lexeme) (o.add lexeme) lexeme.line := by
    rcases o.add_cases lexeme with ⟨-, hadd⟩ | ⟨-, hadd⟩ | ⟨-, hadd⟩
    · exact hadd ▸ headerStep_addTrivia (o := o.noted lexeme) h lexeme.token.leaf lexeme.line
    · exact hadd ▸ headerStep_addWord (o := o.noted lexeme) h lexeme.token lexeme.line
    · obtain ⟨-, hheaded⟩ := addBlock_of_headed (o := o.noted lexeme) h lexeme.token lexeme.line
      exact hadd ▸ .none (Array.toList_eq_nil_iff.mp (hheaded.leaves_eq_nil_iff.mpr rfl))
  cases hstep with
  | none hnil => exact .none hnil
  | begun hnil hsize hline => exact .begun hnil hsize hline
  | continued hne hsize hline => exact .continued hne hsize hline

/-! ## The diagnostics of a run -/

/-- The outline holds these tokens, with the diagnostics of each. -/
structure Reports (o : Outline) (lexemes : List Lexeme) : Prop where
  follows : ∃ y : Layout, o.Follows y ∧ y.tokens = lexemes.map Lexeme.token
  length_places : o.places.length = lexemes.length
  diagnostics : o.diagnostics.toList =
    (List.zipWith report (o.places.map Place.problems) (lexemes.map Lexeme.line)).flatten
  /-- A header starts with the token that its line is that of. -/
  headerLine : o.header ≠ #[] →
    (lexemes[lexemes.length - o.header.size]?).map Lexeme.line = some o.headerLine

theorem reports_empty : Reports {} [] where
  follows := ⟨_, follows_empty, rfl⟩
  length_places := rfl
  diagnostics := rfl
  headerLine := fun hne => absurd rfl hne

theorem Reports.add (h : o.Reports lexemes) {lexeme : Lexeme}
    (hopen : lexeme.problem = lexeme.token.openProblem) :
    (o.add lexeme).Reports (lexemes ++ [lexeme]) := by
  obtain ⟨y, hfollows, htokens⟩ := h.follows
  obtain ⟨y', hfollows', htokens'⟩ := hfollows.add lexeme
  obtain ⟨problems, hplaces, hdiagnostics⟩ := exists_problems_add hfollows.headed hopen
  refine ⟨⟨y', hfollows', by simp [htokens', htokens]⟩, ?_, ?_, ?_⟩
  · simpa [h.length_places] using congrArg List.length hplaces
  · rw [hdiagnostics, hplaces, h.diagnostics, List.map_append, List.zipWith_append]
    · simp
    · simp [h.length_places]
  · intro hne
    have hsize : o.header.size ≤ lexemes.length := by
      rw [← h.length_places, places]
      simp
    cases headerStep_add hfollows.headed lexeme with
    | none hnil => exact absurd hnil hne
    | begun _ hone hline => simp [hone, hline]
    | continued hbegun hmore hline =>
      have hpos : 0 < o.header.size := Array.size_pos_iff.mpr hbegun
      rw [hmore, hline, ← h.headerLine hbegun, List.length_append, List.length_singleton,
        Nat.add_sub_add_right, List.getElem?_append_left (by omega)]

theorem reports_foldl_add (hopen : ∀ lexeme ∈ lexemes, lexeme.problem = lexeme.token.openProblem) :
    (lexemes.foldl Outline.add {}).Reports lexemes := by
  induction lexemes using List.reverseRecOn with
  | nil => exact reports_empty
  | append_singleton lexemes lexeme ih =>
    rw [List.foldl_append]
    refine (ih fun other hother => hopen other ?_).add (hopen lexeme ?_)
    · exact List.mem_append_left _ hother
    · exact List.mem_append_right _ List.mem_cons_self

end Outline

/-! ## Headers that no block follows -/

/-- The tokens from the first identifier behind the last block on. -/
def dangling (tokens : List Token) : List Token :=
  (tokens.rtakeWhile (·.kind ≠ .bracedBlock)).dropWhile (·.kind ≠ .word)

namespace Headed

variable {tokens : List Token} {leaves : List Leaf} {nameIndex typeIndex : Option ℕ}

theorem kind_ne_bracedBlock (h : Headed tokens leaves nameIndex typeIndex) {token : Token}
    (htoken : token ∈ tokens) : token.kind ≠ .bracedBlock := by
  cases h with
  | empty => simp at htoken
  | named hname hrest =>
    rcases List.mem_cons.mp htoken with rfl | htoken
    · simp [hname]
    · exact (hrest token htoken).kind_ne_bracedBlock
  | typed htype hgap hname hrest =>
    rcases List.mem_append.mp htoken with htoken | htoken
    · rcases List.mem_cons.mp htoken with rfl | htoken
      · simp [htype]
      · exact (hgap token htoken).kind_ne_bracedBlock
    · rcases List.mem_cons.mp htoken with rfl | htoken
      · simp [hname]
      · exact hrest token htoken

theorem length_leaves (h : Headed tokens leaves nameIndex typeIndex) :
    leaves.length = tokens.length := by
  cases h <;> simp

end Headed

theorem rtakeWhile_append_cons {α : Type} {p : α → Bool} {x : α} {back : List α} (front : List α)
    (hx : p x = false) (hback : ∀ y ∈ back, p y = true) :
    (front ++ x :: back).rtakeWhile p = back := by
  rw [List.rtakeWhile, List.reverse_append, List.reverse_cons, List.append_assoc,
    List.takeWhile_append_of_pos (by simpa using hback)]
  simp [hx]

theorem Layout.dangling_tokens {y : Layout} {leaves : List Leaf} {nameIndex typeIndex : Option ℕ}
    (h : Headed y.header leaves nameIndex typeIndex) : dangling y.tokens = y.header := by
  have hback : ∀ token ∈ y.gap ++ y.header, token.kind ≠ .bracedBlock :=
    List.forall_mem_append.mpr ⟨fun token htoken => (y.gap_trivia token htoken).kind_ne_bracedBlock,
      fun _ => h.kind_ne_bracedBlock⟩
  have htake : y.tokens.rtakeWhile (·.kind ≠ .bracedBlock) = y.gap ++ y.header := by
    rcases List.eq_nil_or_concat y.sections with hnil | ⟨front, s, hsections⟩
    · rw [tokens, Layout.front, hnil, List.flatMap_nil, List.nil_append,
        List.rtakeWhile_eq_self_iff]
      simpa using hback
    · have htokens : y.tokens = (front.flatMap Section.tokens ++ s.gap ++ s.header) ++
          s.block.body :: (y.gap ++ y.header) := by
        simp [tokens, Layout.front, hsections, Section.tokens]
      rw [htokens]
      exact rtakeWhile_append_cons _ (by simp [s.body_kind]) (by simpa using hback)
  rw [dangling, htake, List.dropWhile_append_of_pos]
  · cases hheader : y.header with
    | nil => rfl
    | cons token rest =>
      have hword := h.kind_head (by rw [hheader]; rfl : y.header.head? = some token)
      exact List.dropWhile_cons_of_neg (by simp [hword])
  · intro token htoken
    simpa using (y.gap_trivia token htoken).kind_ne_word

/-! ## The diagnostics of a text -/

namespace Outline

variable {o : Outline} {lexemes : List Lexeme}

theorem places_finish (o : Outline) : o.finish.1.places = o.places := by
  have hleaves : (o.header.toList.map Node.leaf).flatMap Node.places =
      o.header.toList.map Place.leaf := by
    rw [List.flatMap_map, List.map_eq_flatMap]
    rfl
  unfold finish
  split
  · rename_i hnil
    rw [Array.isEmpty_iff] at hnil
    simp [SyntaxTree.places, places, hnil]
  · simp [SyntaxTree.places, places, hleaves]

theorem diagnostics_finish (o : Outline) :
    o.finish.2 =
      o.diagnostics.toList ++ if o.header = #[] then [] else [⟨.danglingHeader, o.headerLine⟩] := by
  unfold finish
  split
  · rename_i hnil
    simp [Array.isEmpty_iff.mp hnil]
  · rename_i hne
    rw [Array.isEmpty_iff] at hne
    rw [if_neg hne]

end Outline

namespace SyntaxTree

variable {text : String}

/-- The outline of a text, with the lines of its tokens. -/
theorem reports_text (text : String) :
    ((lexemesFrom 1 text.toList).foldl Outline.add {}).Reports (lexemesFrom 1 text.toList) :=
  Outline.reports_foldl_add fun _ hlexeme => problem_of_mem_lexemesFrom hlexeme

/-- Each token of a text starts on its own line. -/
theorem line_of_text {i : ℕ} {lexeme : Lexeme}
    (h : (lexemesFrom 1 text.toList)[i]? = some lexeme) :
    lexeme.line = lineAt (tokenize text) i := by
  rw [tokenize_eq]
  exact line_of_lexemesFrom h

theorem map_token_places_parse (text : String) :
    (parse text).places.map Place.token = tokenize text := by
  rw [map_token_places, tokens_parse]

theorem length_tokenize (text : String) :
    (tokenize text).length = (lexemesFrom 1 text.toList).length := by
  rw [tokenize_eq, List.length_map]

/-- The diagnostics of the tokens are those of their places. -/
theorem diagnostics_text (text : String) :
    ((lexemesFrom 1 text.toList).foldl Outline.add {}).diagnostics.toList =
      ((parse text).places.mapIdx fun i place =>
        report place.problems (lineAt (tokenize text) i)).flatten := by
  have hreports := reports_text text
  rw [hreports.diagnostics, parse, read_eq, Outline.ofLexemes, Outline.places_finish]
  congr 1
  apply List.ext_getElem?
  intro i
  rw [List.getElem?_mapIdx, List.getElem?_zipWith, List.getElem?_map, List.getElem?_map]
  rcases Nat.lt_or_ge i (lexemesFrom 1 text.toList).length with hi | hi
  · have hline := line_of_text (List.getElem?_eq_getElem hi)
    rw [List.getElem?_eq_getElem hi, List.getElem?_eq_getElem (hreports.length_places ▸ hi)]
    simp [hline]
  · rw [List.getElem?_eq_none hi, List.getElem?_eq_none (hreports.length_places ▸ hi)]
    rfl

/-- The header at the end of the input has the tokens that no block follows, and the line of the
first one. -/
theorem header_text (text : String) :
    let o := (lexemesFrom 1 text.toList).foldl Outline.add {}
    o.header.size = (dangling (tokenize text)).length ∧
      (o.header ≠ #[] → o.headerLine =
        lineAt (tokenize text) ((tokenize text).length - (dangling (tokenize text)).length)) := by
  intro o
  have hreports : o.Reports _ := reports_text text
  obtain ⟨y, hfollows, htokens⟩ := hreports.follows
  have hsize : o.header.size = (dangling (tokenize text)).length := by
    rw [tokenize_eq, ← htokens, Layout.dangling_tokens hfollows.headed,
      ← hfollows.headed.length_leaves, Array.length_toList]
  refine ⟨hsize, fun hne => ?_⟩
  obtain ⟨lexeme, hlexeme, hline⟩ := Option.map_eq_some_iff.mp (hreports.headerLine hne)
  rw [← hline, line_of_text hlexeme, hsize, length_tokenize]

/-- The diagnostics of a text are those of its places, and one of a header that no block follows. -/
theorem snd_read (text : String) :
    (read text).2 =
      ((parse text).places.mapIdx fun i place =>
        report place.problems (lineAt (tokenize text) i)).flatten ++
      if dangling (tokenize text) = [] then []
      else [⟨.danglingHeader,
        lineAt (tokenize text) ((tokenize text).length - (dangling (tokenize text)).length)⟩] := by
  obtain ⟨hsize, hline⟩ := header_text text
  rw [read_eq, Outline.ofLexemes, Outline.diagnostics_finish, diagnostics_text]
  congr 1
  by_cases hnil : dangling (tokenize text) = []
  · rw [hnil, List.length_nil, Array.size_eq_zero_iff] at hsize
    rw [if_pos hnil, if_pos hsize]
  · have hne := mt Array.size_eq_zero_iff.mpr (hsize ▸ mt List.length_eq_zero_iff.mp hnil)
    rw [if_neg hnil, if_neg hne, hline hne]

/-- An open token is reported with its line. -/
theorem mem_snd_read_of_open {before later : List Token} {token : Token} {problem : Problem}
    (htokens : tokenize text = before ++ token :: later)
    (hopen : token.openProblem = some problem) :
    ⟨problem, lineAt (tokenize text) before.length⟩ ∈ (read text).2 := by
  have htoken : ((parse text).places.map Place.token)[before.length]? = some token := by
    simp [map_token_places_parse, htokens]
  rw [List.getElem?_map, Option.map_eq_some_iff] at htoken
  obtain ⟨place, hplace, rfl⟩ := htoken
  have hreport : ((parse text).places.mapIdx fun i place =>
      report place.problems (lineAt (tokenize text) i))[before.length]? =
        some (report place.problems (lineAt (tokenize text) before.length)) := by
    rw [List.getElem?_mapIdx, hplace]
    rfl
  have hproblem : ⟨problem, lineAt (tokenize text) before.length⟩ ∈
      report place.problems (lineAt (tokenize text) before.length) :=
    List.mem_map_of_mem (place.mem_problems_of_open hopen)
  rw [snd_read]
  exact List.mem_append_left _ (List.mem_flatten_of_mem (List.mem_of_getElem? hreport) hproblem)

/-- The diagnostics of a text are those of its places, in document order, with the lines of their
tokens, and at the end one of a header that no block follows, with the line of its first identifier.
No token but the last one is open. After any number of tokens the line of the tokenizer is that of
the characters consumed. -/
theorem read_diagnostics (text : String) :
    let tokens := tokenize text
    let places := (parse text).places
    places.map Place.token = tokens ∧
    (read text).2 =
      (places.mapIdx fun i place => report place.problems (lineAt tokens i)).flatten ++
        (if dangling tokens = [] then []
        else [⟨.danglingHeader, lineAt tokens (tokens.length - (dangling tokens).length)⟩]) ∧
    (∀ token ∈ tokens.dropLast, token.openProblem = none) ∧
    ∀ i ≤ tokens.length, ∃ t, Tokenizer.skip i { cursor := TextCursor.ofString text } = some t ∧
      (tokens.take i).flatMap Token.chars ++ t.cursor.chars = text.toList ∧
      t.line = lineAt tokens i := by
  intro tokens places
  refine ⟨map_token_places_parse text, snd_read text, ?_, ?_⟩
  · intro token htoken
    by_contra hopen
    obtain ⟨before, later, hsplit⟩ := List.append_of_mem htoken
    have hne : tokens ≠ [] := fun hnil => by simp [hnil] at htoken
    have htokens : tokens = before ++ token :: (later ++ [tokens.getLast hne]) := by
      rw [← List.cons_append, ← List.append_assoc, ← hsplit, List.dropLast_concat_getLast]
    exact List.concat_ne_nil _ _ (later_eq_nil_of_open htokens hopen)
  · intro i hi
    have hshows := TextCursor.shows_ofString text
    obtain ⟨t, left, hskip, hleft, hchars, hline⟩ :=
      Tokenizer.exists_skip_of_shows (t := { cursor := TextCursor.ofString text }) hshows
        (n := i) (by simpa [tokens, tokenize_eq] using hi)
    rw [← tokenize_eq] at hchars hline
    exact ⟨t, hskip, by rw [TextCursor.chars_of_shows hleft, hchars], hline⟩

/-- A surplus identifier, a block without a name, a comment that is not closed, and the header that
it stands in. -/
theorem read_diagnostics_fog :
    let text := "wall red bricks \x7b\n\x7d\x7b\x7d\nfog /* mist\n"
    (read text).2 =
        [⟨.extraHeaderWord "bricks", 1⟩, ⟨.anonymousBlock, 2⟩, ⟨.unterminatedComment, 3⟩,
          ⟨.danglingHeader, 3⟩] ∧
      10 ≤ (tokenize text).length ∧
        ∃ t, Tokenizer.skip 10 { cursor := TextCursor.ofString text } = some t ∧ t.line = 3 := by
  intro text
  obtain ⟨-, hdiagnostics, -, hline⟩ := read_diagnostics text
  have hlength : 10 ≤ (tokenize text).length := by decide +kernel
  obtain ⟨t, hskip, -, ht⟩ := hline 10 hlength
  refine ⟨?_, hlength, t, hskip, ?_⟩
  · rw [hdiagnostics]
    decide +kernel
  · rw [ht]
    decide +kernel

end SyntaxTree

end AssetDecl
