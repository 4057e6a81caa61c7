import AssetDecl.Proofs.ReachableSystem
import AssetDecl.Proofs.StreamReading
import AssetDecl.Proofs.VisitedBlocks

/-!
# Waiting blocks

A waiting block has a name, and waits for what its keyword asks for where its origin is the default
type (`WaitingBlock.Proper`). Whatever a scan reads, it finds such blocks only, and so does every
event keep to them (`System.Proper.perform`). In a reachable system that owes no try, none of them
waits for something that is there.
-/

namespace AssetDecl

/-! ## Names of parsed blocks -/

namespace SyntaxTree

theorem text_ne_empty_of_read {text : String} {token : Token} (h : token ∈ (read text).1.tokens) :
    token.text ≠ "" := by
  rw [show (read text).1.tokens = tokenize text from tokens_parse text] at h
  exact Token.chars_ne_nil_iff.mp ((tokenize_spec text).2.1 token h)

theorem text_ne_empty_of_readStream {s : ByteStream} {tree : SyntaxTree}
    {diagnostics : List Diagnostic} (hs : readStream s = .ok (tree, diagnostics)) {token : Token}
    (h : token ∈ tree.tokens) : token.text ≠ "" := by
  rw [readStream_eq] at hs
  split at hs
  · simp at hs
  · obtain rfl : _ = tree := congrArg Prod.fst (Except.ok.inj hs)
    exact text_ne_empty_of_read h

/-- The name of a block is one of the tokens of its tree. -/
theorem exists_token_of_name {tree : SyntaxTree} {block : Block} {name : String}
    (hblock : block ∈ tree.blocks) (hname : block.name = some name) :
    ∃ token ∈ tree.tokens, token.text = name := by
  obtain ⟨node, hnode, hblock⟩ := List.mem_filterMap.mp hblock
  obtain ⟨i, -, hleaf⟩ := Option.bind_eq_some_iff.mp hname
  obtain ⟨leaf, hleaf, htext⟩ := Option.bind_eq_some_iff.mp hleaf
  have hmem : leaf.token ∈ block.tokens := by
    refine List.mem_append_left _ (List.mem_map_of_mem ?_)
    exact Array.mem_def.mp (Array.mem_of_getElem? hleaf)
  refine ⟨leaf.token, List.mem_flatMap.mpr ⟨node, hnode, ?_⟩, Option.some.inj htext⟩
  cases node with
  | leaf l => simp [Node.block?] at hblock
  | block b =>
    obtain rfl := Option.some.inj hblock
    exact hmem

end SyntaxTree

/-- A file is read as blocks with names. -/
theorem FileAccess.name_ne_empty_of_read {access : FileAccess} {file : SourceFile}
    {blocks : List BlockSource} (h : access.read file = .blocks blocks) {block : BlockSource}
    (hblock : block ∈ blocks) : block.name ≠ "" := by
  unfold FileAccess.read at h
  split at h
  · simp at h
  · simp at h
  · split at h
    · simp at h
    · rename_i tree _ hstream
      obtain rfl := Reading.blocks.inj h
      obtain ⟨parsed, hparsed, rfl⟩ := List.mem_map.mp hblock
      obtain ⟨hparsed, hsome⟩ := List.mem_filter.mp hparsed
      obtain ⟨name, hname⟩ := Option.isSome_iff_exists.mp hsome
      obtain ⟨token, htoken, htext⟩ := SyntaxTree.exists_token_of_name hparsed hname
      show parsed.name.getD "" ≠ ""
      rw [hname, Option.getD_some, ← htext]
      exact SyntaxTree.text_ne_empty_of_readStream hstream htoken

/-! ## What scans find -/

/-- The block has a name, and waits for what its keyword asks for where its origin is the
default. -/
structure WaitingBlock.Proper (p : WaitingBlock) : Prop where
  need_eq : p.need = .of p.block.keyword p.origin
  named : p.block.name ≠ ""

namespace Findings

variable {b : Bindings} {t : DeclType} {f : Findings} {block : BlockSource}

/-- All blocks have names, and those that wait are proper. -/
structure Proper (f : Findings) : Prop where
  named : ∀ t, ∀ block ∈ f.blocksOf t, block.name ≠ ""
  waiting : ∀ p ∈ f.waiting, p.Proper

theorem proper_empty : ({} : Findings).Proper := by
  constructor
  · intro t block h
    simp [blocksOf] at h
  · intro p hp
    exact absurd hp List.not_mem_nil

theorem Proper.addBlock (h : f.Proper) (hname : block.name ≠ "") :
    (addBlock b t f block).Proper := by
  unfold Findings.addBlock
  split
  · rename_i t' _
    refine ⟨?_, h.waiting⟩
    intro t'' block' hblock'
    unfold blocksOf at hblock'
    simp only [Std.ExtTreeMap.getElem?_insert, DeclType.compare_eq_eq] at hblock'
    split at hblock'
    · rcases List.mem_append.mp hblock' with hblock' | hblock'
      · exact h.named t' block' hblock'
      · obtain rfl := List.mem_singleton.mp hblock'
        exact hname
    · exact h.named t'' block' hblock'
  · rename_i need ha
    refine ⟨h.named, ?_⟩
    intro p hp
    rcases List.mem_append.mp hp with hp | hp
    · exact h.waiting p hp
    · obtain rfl := List.mem_singleton.mp hp
      refine ⟨?_, hname⟩
      rw [Bindings.assign_eq] at ha
      split at ha
      · simp at ha
      · exact (Assignment.wanting.inj ha).symm

theorem Proper.addFile (h : f.Proper) (file : SourceFile) {blocks : List BlockSource}
    (hnames : ∀ block ∈ blocks, block.name ≠ "") : (f.addFile b t file blocks).Proper := by
  have hblocks : (blocks.foldl (Findings.addBlock b t) f).Proper := by
    induction blocks generalizing f with
    | nil => exact h
    | cons block blocks ih =>
      exact ih (h.addBlock (hnames block List.mem_cons_self))
        fun block' hblock' => hnames block' (List.mem_cons_of_mem block hblock')
  exact ⟨hblocks.named, hblocks.waiting⟩

end Findings

namespace Scan

variable {access : FileAccess} {b : Bindings} {s s' : Scan}

/-- The file that has been read and what has been found have proper blocks only. -/
structure Proper (s : Scan) : Prop where
  current : ∀ file blocks, s.current = some (file, blocks) → ∀ block ∈ blocks, block.name ≠ ""
  found : s.found.Proper

theorem Proper.step (h : s.Proper) (hstep : s.step access b = .running s') : s'.Proper := by
  have hsteps := steps_step access b s
  rw [hstep] at hsteps
  cases hsteps with
  | @record file blocks hcurrent =>
    exact ⟨by simp, h.found.addFile file (h.current file blocks hcurrent)⟩
  | skip _ _ _ => exact ⟨h.current, h.found⟩
  | read _ _ _ hread =>
    refine ⟨?_, h.found⟩
    intro file' blocks' hcurrent' block hblock
    obtain ⟨rfl, rfl⟩ := Prod.mk.inj (Option.some.inj hcurrent')
    exact FileAccess.name_ne_empty_of_read hread hblock
  | list _ _ _ => exact ⟨h.current, h.found⟩

end Scan

/-! ## Installing what scans find -/

namespace Catalogue

variable {cat : Catalogue} {t : DeclType} {previous : FileSet} {f : Findings}

/-- A block that cannot be installed is left waiting, and no other. -/
theorem Installing.mem_left_put {b : Bindings} {i : Installing} {p q : WaitingBlock}
    (h : q ∈ (i.put b t p).left) : q ∈ i.left ∨ q = p := by
  unfold put at h
  split at h
  · exact .inl h
  · rcases List.mem_append.mp h with h | h
    · exact .inl h
    · exact .inr (List.mem_singleton.mp h)

theorem proper_left_installFound (hf : f.Proper) :
    ∀ p ∈ (cat.installFound t f).left, p.Proper := by
  refine List.foldlRecOn (motive := fun i : Installing => ∀ p ∈ i.left, p.Proper) f.assigned
    (Installing.putFound cat.bindings t) ?_ ?_
  · exact fun p hp => absurd hp List.not_mem_nil
  · intro i hi q hq p hp
    rcases Installing.mem_left_put hp with hp | rfl
    · exact hi p hp
    · exact ⟨rfl, hf.named q.1 q.2 (Findings.mem_assigned.mp hq)⟩

theorem proper_withFound (hcat : ∀ p ∈ cat.waiting, p.Proper) (hf : f.Proper) :
    ∀ p ∈ (cat.withFound t previous f).waiting, p.Proper := by
  intro p hp
  rcases List.mem_append.mp hp with hp | hp
  · rcases List.mem_append.mp hp with hp | hp
    · exact hcat p (List.mem_filter.mp hp).1
    · exact proper_left_installFound hf p hp
  · exact hf.waiting p hp

theorem proper_installScan (h : cat.Sound) (hcat : ∀ p ∈ cat.waiting, p.Proper) (hf : f.Proper) :
    ∀ p ∈ (cat.installScan t previous f).1.waiting, p.Proper := by
  intro p hp
  rw [installScan_eq, waiting_retryWaiting (h.withFound t previous f)] at hp
  exact proper_withFound hcat hf p (List.mem_filter.mp hp).1

end Catalogue

/-! ## Systems -/

namespace System

variable {s : System}

/-- All blocks that wait, and all that scans have found, are proper. -/
structure Proper (s : System) : Prop where
  waiting : ∀ p ∈ s.catalogue.waiting, p.Proper
  scans : ∀ r ∈ s.scans, r.scan.Proper

theorem Proper.of_agrees {s' : System} (h : s.Proper) (hagrees : s.catalogue.Agrees s'.catalogue)
    (hscans : ∀ r ∈ s'.scans, r ∈ s.scans ∨ ∃ cat t, r = (Catalogue.launch cat t).1) :
    s'.Proper := by
  constructor
  · rw [hagrees.waiting]
    exact h.waiting
  · intro r hr
    rcases hscans r hr with hr | ⟨cat, t, rfl⟩
    · exact h.scans r hr
    · exact ⟨by simp [Catalogue.launch], Findings.proper_empty⟩

theorem Proper.become {cat? : Option Catalogue} (h : s.Proper)
    (hcat : ∀ cat, cat? = some cat → s.catalogue.SameButTickets cat) : (s.become cat?).Proper :=
  h.of_agrees (sameButTickets_become hcat).agrees fun _ hr => .inl hr

theorem Proper.bind (h : s.Proper) (keyword : String) (c : Creator) :
    (s.bind keyword c).Proper := by
  unfold System.bind
  split
  · exact h
  · exact ⟨h.waiting, h.scans⟩

theorem Proper.retry (h : s.Proper) (hs : s.Sound) : s.retry.Proper := by
  rw [System.retry_eq]
  split
  · exact h
  · refine ⟨fun p hp => ?_, h.scans⟩
    rw [Catalogue.waiting_retryWaiting hs.catalogue] at hp
    exact h.waiting p (List.mem_filter.mp hp).1

theorem Proper.unbind (h : s.Proper) (keyword : String) (order : TableOrder String) :
    (s.unbind keyword order).Proper := by
  unfold System.unbind Catalogue.unbindType
  cases s.catalogue.bindings.unbindKeyword keyword order with
  | error e => exact h
  | ok unbound => exact ⟨h.waiting, h.scans⟩

theorem Proper.findOrCreate (h : s.Proper) (t : DeclType) (name : String) :
    (s.findOrCreate t name).Proper := by
  unfold System.findOrCreate
  split
  · exact h
  · rename_i hf
    rcases Catalogue.findOrCreate_cases hf with rfl | ⟨c, -, rfl⟩
    · exact h
    · exact ⟨h.waiting, h.scans⟩

theorem Proper.advance (h : s.Proper) (hs : s.Sound) (index : Nat) (access : FileAccess) :
    (s.advance index access).Proper := by
  rw [System.advance_eq]
  cases hr : s.scans[index]? with
  | none => exact h
  | some r =>
    have hproper := h.scans r (List.mem_of_getElem? hr)
    have herase : ∀ r' ∈ s.scans.eraseIdx index, r'.scan.Proper := fun r' hr' =>
      h.scans r' (List.mem_of_mem_eraseIdx hr')
    dsimp only
    cases hstep : r.scan.step access s.catalogue.bindings with
    | running scan =>
      refine ⟨h.waiting, fun r' hr' => ?_⟩
      rcases List.mem_or_eq_of_mem_set hr' with hr' | rfl
      · exact h.scans r' hr'
      · exact hproper.step hstep
    | finished found =>
      refine ⟨?_, herase⟩
      show ∀ p ∈ (s.catalogue.completeScan r found).1.waiting, p.Proper
      unfold Catalogue.completeScan
      split
      · rw [← Scan.found_of_finished hstep]
        exact Catalogue.proper_installScan hs.catalogue h.waiting hproper.found
      · exact h.waiting
    | crashed => exact ⟨h.waiting, herase⟩

/-- Every event keeps the blocks proper. -/
theorem Proper.perform (h : s.Proper) (hs : s.Sound) (e : Event) : (s.perform e).Proper := by
  cases e with
  | bind keyword c => exact h.bind keyword c
  | retry => exact h.retry hs
  | unbind keyword order => exact h.unbind keyword order
  | addFolder t folder extension =>
    refine h.of_agrees (Catalogue.agrees_addFolder s.catalogue t folder extension) fun r hr => ?_
    rcases List.mem_append.mp hr with hr | hr
    · exact .inl hr
    · exact .inr ⟨_, t, List.mem_singleton.mp hr⟩
  | rescan =>
    refine h.of_agrees (Catalogue.agrees_rescan s.catalogue) fun r hr => ?_
    rcases List.mem_append.mp hr with hr | hr
    · exact .inl hr
    · obtain ⟨cat, t, -, rfl⟩ := Catalogue.launched_of_mem_rescan hr
      exact .inr ⟨cat, t, rfl⟩
  | findOrCreate t name => exact h.findOrCreate t name
  | remove t name => exact ⟨h.waiting, h.scans⟩
  | setBlock handle block => exact ⟨h.waiting, h.scans⟩
  | advance index access => exact h.advance hs index access
  | leave index =>
    show (s.leave index).Proper
    unfold System.leave
    split
    · exact h
    · exact ⟨h.waiting, h.scans⟩
  | await t => exact h.become fun cat hcat => Catalogue.sameButTickets_awaitType hcat
  | awaitAll => exact h.become fun cat hcat => Catalogue.sameButTickets_joinCurrent hcat
  | joinEvery => exact h.become fun cat hcat => Catalogue.sameButTickets_joinEvery hcat
  | connect t watcher => exact ⟨h.waiting, h.scans⟩
  | disconnect t id => exact ⟨h.waiting, h.scans⟩

theorem Reachable.proper (h : s.Reachable) : s.Proper := by
  induction h with
  | start limits =>
    exact ⟨fun p hp => absurd hp List.not_mem_nil, fun r hr => absurd hr List.not_mem_nil⟩
  | perform h e ih => exact ih.perform h.sound e

/-- No block waits for something that is there. A waiting block waits for its keyword, case folded,
or if it has none for a creator of the default type that it was found under; and it has a name. -/
theorem Reachable.waiting_unmet (h : s.Reachable) (hquiet : s.owed = 0) :
    ∀ p ∈ s.catalogue.waiting,
      s.catalogue.bindings.meet p.need = none ∧
      (p.block.keyword ≠ "" → p.need = .keyword (Text.foldCase p.block.keyword)) ∧
      (p.block.keyword = "" → p.need = .defaultType p.origin) ∧
      p.block.name ≠ "" := by
  intro p hp
  obtain ⟨hneed, hname⟩ := h.proper.waiting p hp
  refine ⟨h.sound.settled hquiet p hp, ?_, ?_, hname⟩
  · intro hkeyword
    rw [hneed, Need.of, if_neg hkeyword]
  · intro hkeyword
    rw [hneed, Need.of, if_pos hkeyword]

/-- A block without a keyword waits for the default type, and one whose keyword was bound and is not
any more waits for it again. -/
theorem waiting_unmet_unbound :
    let t : DeclType := ⟨"material"⟩
    let access := FileAccess.ofTexts [("materials/a.mtr", "stone {} Sound noise {}")]
    let events : List Event :=
      [.bind "sound" (.plain ⟨"sound"⟩), .retry, .unbind "SOUND" .listed,
        .addFolder t "materials" "mtr"] ++
        List.replicate 4 (.advance 0 access)
    let s := events.foldl perform {}
    s.Reachable ∧ s.owed = 0 ∧
      (s.catalogue.waiting.map fun p => (p.need, p.block.name)) =
        [(.defaultType t, "stone"), (.keyword "sound", "noise")] ∧
      ∀ p ∈ s.catalogue.waiting,
        s.catalogue.bindings.meet p.need = none ∧
        (p.block.keyword ≠ "" → p.need = .keyword (Text.foldCase p.block.keyword)) ∧
        (p.block.keyword = "" → p.need = .defaultType p.origin) ∧
        p.block.name ≠ "" := by
  intro t access events s
  have hreachable : s.Reachable := (Reachable.start {}).run events
  have howed : s.owed = 0 := by decide +kernel
  have hwaiting : (s.catalogue.waiting.map fun p => (p.need, p.block.name)) =
      [(.defaultType t, "stone"), (.keyword "sound", "noise")] := by decide +kernel
  exact ⟨hreachable, howed, hwaiting, hreachable.waiting_unmet howed⟩

end System

end AssetDecl
