import AssetDecl.Proofs.GrowingBindings
import AssetDecl.Proofs.SortedFindings
import AssetDecl.Store

/-!
# Visited blocks

On files that do not change, which files a scan reads and which blocks it comes upon in which order
does not depend on the bindings: every step keeps what the scan will have visited by its end
(`Scan.visits`, `Scan.Gathers.step`).

`Findings.Gathers` says that findings are some blocks that were sorted in this order, under bindings
that may have grown in between. Every block is then under its type, or waits.
-/

namespace AssetDecl

/-- Access to files with given names and texts, for every folder. -/
def FileAccess.ofTexts (texts : List (String × String)) : FileAccess where
  files _ _ _ := texts.map fun (name, text) => ⟨name, ⟨"/"⟩, "base", ⟨text.utf8ByteSize, 0⟩⟩
  openFile file :=
    match texts.lookup file.name with
    | some text => .stream (.ofBytes text.toUTF8.toList)
    | none => .failed "there is no such file"

/-! ## Visits -/

theorem FileSet.mem_toList_iff {files : FileSet} {file : SourceFile} :
    file ∈ files.toList ↔ files.get? file = some file := by
  show file ∈ files.inner.keys ↔ files.inner.getKey? file = some file
  rw [← Std.ExtTreeMap.map_fst_toList_eq_keys, List.mem_map]
  constructor
  · rintro ⟨p, hp, rfl⟩
    exact (Std.ExtTreeMap.mem_toList_iff_getKey?_eq_some_and_getElem?_eq_some.mp hp).1
  · intro hkey
    have hmem : file ∈ files.inner := Std.ExtTreeMap.mem_of_getKey?_eq_some hkey
    refine ⟨(file, ()), ?_, rfl⟩
    exact Std.ExtTreeMap.mem_toList_iff_getKey?_eq_some_and_getElem?_eq_some.mpr
      ⟨hkey, Std.ExtTreeMap.getElem?_eq_some_getElem hmem⟩

/-- Files that have been read, and all their blocks in the order of the visits. -/
structure Visits where
  files : FileSet := ∅
  blocks : List BlockSource := []

namespace Visits

def add (v : Visits) (file : SourceFile) (blocks : List BlockSource) : Visits :=
  ⟨v.files.insert file, v.blocks ++ blocks⟩

/-- Visits a file: it is read unless it has been read before or is too large. None if that is the
end of the scan. -/
def visit (access : FileAccess) (limits : ScanLimits) (v : Visits) (file : SourceFile) :
    Option Visits :=
  if !v.files.contains file && file.fingerprint.size ≤ limits.sizeLimit then
    match access.read file with
    | .crashed => none
    | .unreadable => some v
    | .blocks blocks => some (v.add file blocks)
  else some v

end Visits

namespace Scan

variable {access : FileAccess} {v : Visits} {s s' : Scan}

/-- The files still to be visited. -/
def ahead (access : FileAccess) (s : Scan) : List SourceFile :=
  s.queue ++ s.folders.flatMap fun folder =>
    access.files folder.folder folder.extension s.limits.depthLimit

/-- What a scan will have visited by its end if it has visited `v` so far; none if it dies. -/
def visits (access : FileAccess) (s : Scan) (v : Visits) : Option Visits :=
  (s.ahead access).foldlM (Visits.visit access s.limits)
    (match s.current with
      | some (file, blocks) => v.add file blocks
      | none => v)

theorem opens_eq (hfiles : s.found.files = v.files) (file : SourceFile) :
    s.opens file = (!v.files.contains file && file.fingerprint.size ≤ s.limits.sizeLimit) := by
  rw [opens, hfiles]

theorem visits_of_queue {file : SourceFile} {rest : List SourceFile} (hcurrent : s.current = none)
    (hqueue : s.queue = file :: rest) (v : Visits) :
    s.visits access v =
      (v.visit access s.limits file).bind fun v' =>
        (ahead access { s with queue := rest }).foldlM (Visits.visit access s.limits) v' := by
  unfold visits ahead
  rw [hcurrent, hqueue]
  rfl

/-- A step keeps what the scan will have visited. It records the file that has been read, if there
is one. -/
theorem visits_step {b : Bindings} (hfiles : s.found.files = v.files)
    (hstep : s.step access b = .running s') :
    (s'.found = s.found ∧ s'.visits access v = s.visits access v) ∨
      ∃ file blocks, s'.found = s.found.addFile b s.defaultType file blocks ∧
        s'.visits access (v.add file blocks) = s.visits access v := by
  have hsteps := steps_step access b s
  rw [hstep] at hsteps
  cases hsteps with
  | @record file blocks hcurrent =>
    refine .inr ⟨file, blocks, rfl, ?_⟩
    unfold visits ahead
    rw [hcurrent]
  | skip hcurrent hqueue hskip =>
    refine .inl ⟨rfl, ?_⟩
    rw [visits_of_queue hcurrent hqueue, Visits.visit, ← opens_eq hfiles]
    rcases hskip with hopens | hread
    · rw [hopens]
      unfold visits
      rw [hcurrent]
      rfl
    · rw [hread, ite_self]
      unfold visits
      rw [hcurrent]
      rfl
  | read hcurrent hqueue hopens hread =>
    refine .inl ⟨rfl, ?_⟩
    rw [visits_of_queue hcurrent hqueue, Visits.visit, ← opens_eq hfiles, hopens, if_pos rfl,
      hread]
    rfl
  | list hcurrent hqueue hfolders =>
    refine .inl ⟨rfl, ?_⟩
    simp [visits, ahead, hcurrent, hqueue, hfolders]

theorem visits_of_finished {b : Bindings} {f : Findings} (hstep : s.step access b = .finished f) :
    s.visits access v = some v := by
  have hsteps := steps_step access b s
  rw [hstep] at hsteps
  cases hsteps with
  | finish hcurrent hqueue hfolders => simp [visits, ahead, hcurrent, hqueue, hfolders]

theorem visits_of_crashed {b : Bindings} (hfiles : s.found.files = v.files)
    (hstep : s.step access b = .crashed) : s.visits access v = none := by
  have hsteps := steps_step access b s
  rw [hstep] at hsteps
  cases hsteps with
  | crash hcurrent hqueue hopens hread =>
    rw [visits_of_queue hcurrent hqueue, Visits.visit, ← opens_eq hfiles, hopens, if_pos rfl,
      hread]
    rfl

end Scan

/-! ## Several steps -/

/-- What has been found, if that is all. -/
def Progress.found? : Progress → Option Findings
  | .finished f => some f
  | _ => none

namespace Scan

variable {access : FileAccess} {b : Bindings} {stop : SourceFile → Bool} {s s' : Scan}
  {f : Findings}

theorem runUntil_of_running (hstep : s.step access b = .running s') :
    s.runUntil access b stop =
      if (s'.current.map fun c => stop c.1).getD false then .running s'
      else s'.runUntil access b stop := by
  rw [runUntil]
  split
  · rename_i s'' hstep'
    obtain rfl := Progress.running.inj (hstep.symm.trans hstep')
    rfl
  · rename_i hstep'
    simp [hstep] at hstep'
  · rename_i hstep'
    simp [hstep] at hstep'

theorem runUntil_of_ended (hstep : ∀ s', s.step access b ≠ .running s') :
    s.runUntil access b stop = s.step access b := by
  rw [runUntil]
  split
  · rename_i hstep'
    exact absurd hstep' (hstep _)
  · rename_i hstep'
    exact hstep'.symm
  · rename_i hstep'
    exact hstep'.symm

theorem run_eq (access : FileAccess) (b : Bindings) (s : Scan) :
    s.run access b = (s.runUntil access b fun _ => false).found? := rfl

theorem run_of_running (hstep : s.step access b = .running s') :
    s.run access b = s'.run access b := by
  rw [run_eq, runUntil_of_running hstep, if_neg (by cases s'.current <;> simp), ← run_eq]

theorem run_of_ended (hstep : ∀ s', s.step access b ≠ .running s') :
    s.run access b = (s.step access b).found? := by
  rw [run_eq, runUntil_of_ended hstep]

/-- What a scan comes to in some steps, or in fewer if it ends. -/
def steps (access : FileAccess) (b : Bindings) : Nat → Scan → Progress
  | 0, s => .running s
  | n + 1, s =>
    match s.step access b with
    | .running s' => steps access b n s'
    | ended => ended

theorem steps_of_running (hstep : s.step access b = .running s') (n : Nat) :
    s.steps access b (n + 1) = s'.steps access b n := by
  rw [steps, hstep]

theorem steps_of_ended (hstep : ∀ s', s.step access b ≠ .running s') (n : Nat) :
    s.steps access b (n + 1) = s.step access b := by
  rw [steps]
  split
  · rename_i hstep'
    exact absurd hstep' (hstep _)
  · rfl

/-- A scan that is finished after some steps has been run. -/
theorem run_of_steps {n : Nat} (h : (s.steps access b n).found? = some f) :
    s.run access b = some f := by
  induction n generalizing s with
  | zero => simp [steps, Progress.found?] at h
  | succ n ih =>
    by_cases hstep : ∃ s', s.step access b = .running s'
    · obtain ⟨s', hstep⟩ := hstep
      rw [steps_of_running hstep] at h
      rw [run_of_running hstep]
      exact ih h
    · rw [not_exists] at hstep
      rw [steps_of_ended hstep] at h
      rw [run_of_ended hstep, h]

end Scan

/-! ## Gathered blocks -/

namespace WaitingBlock

/-- A block that waits for what its keyword asks for, found where `t` is the default type. -/
def ofBlock (t : DeclType) (block : BlockSource) : WaitingBlock :=
  ⟨.of block.keyword t, block, t⟩

@[simp] theorem need_ofBlock (t : DeclType) (block : BlockSource) :
    (ofBlock t block).need = .of block.keyword t := rfl

@[simp] theorem block_ofBlock (t : DeclType) (block : BlockSource) :
    (ofBlock t block).block = block := rfl

/-- Whether the bindings give the block this key. -/
def goesTo (b : Bindings) (key : DeclKey) (p : WaitingBlock) : Bool :=
  b.meet p.need = some key.declType && Text.foldCase p.block.name = key.name

theorem goesTo_iff {b : Bindings} {key : DeclKey} {p : WaitingBlock} :
    p.goesTo b key = true ↔
      b.meet p.need = some key.declType ∧ Text.foldCase p.block.name = key.name := by
  rw [goesTo, Bool.and_eq_true, decide_eq_true_eq, decide_eq_true_eq]

end WaitingBlock

/-- What is unmet now was unmet before, so that a list may be filtered twice. -/
theorem Bindings.Grows.filter_unmet {b b' : Bindings} (hb : b.Grows b') (ps : List WaitingBlock) :
    (ps.filter fun p => b'.meet p.need = none) =
      (ps.filter fun p => b.meet p.need = none).filter fun p => b'.meet p.need = none := by
  rw [List.filter_filter]
  congr 1
  funext p
  rw [Bool.eq_iff_iff, Bool.and_eq_true, decide_eq_true_eq, decide_eq_true_eq]
  exact ⟨fun hm => ⟨hm, hb.unmet hm⟩, And.left⟩

namespace Findings

variable {b b' : Bindings} {t : DeclType} {f : Findings} {blocks : List BlockSource}

theorem blocksOf_addBlock (b : Bindings) (t : DeclType) (f : Findings) (block : BlockSource)
    (t' : DeclType) :
    (addBlock b t f block).blocksOf t' =
      f.blocksOf t' ++ if b.meet (.of block.keyword t) = some t' then [block] else [] := by
  unfold addBlock
  rw [Bindings.assign_eq]
  cases b.meet (.of block.keyword t) with
  | none => simp [blocksOf]
  | some t'' =>
    by_cases ht : t'' = t'
    · subst ht
      simp [blocksOf]
    · have hne : ¬(some t'' = some t') := fun h => ht (Option.some.inj h)
      simp [blocksOf, Std.ExtTreeMap.getElem?_insert, ht]

theorem waiting_addBlock (b : Bindings) (t : DeclType) (f : Findings) (block : BlockSource) :
    (addBlock b t f block).waiting =
      f.waiting ++ if b.meet (.of block.keyword t) = none then [.ofBlock t block] else [] := by
  unfold addBlock
  rw [Bindings.assign_eq]
  cases b.meet (.of block.keyword t) <;> simp [WaitingBlock.ofBlock]

theorem files_addFile (b : Bindings) (t : DeclType) (f : Findings) (file : SourceFile)
    (blocks : List BlockSource) : (f.addFile b t file blocks).files = f.files.insert file := by
  have hfiles : (blocks.foldl (Findings.addBlock b t) f).files = f.files := by
    refine List.foldlRecOn (motive := fun f' : Findings => f'.files = f.files) blocks
      (Findings.addBlock b t) rfl ?_
    intro f' hf' block _
    rw [← hf', addBlock]
    split <;> rfl
  show (blocks.foldl (Findings.addBlock b t) f).files.insert file = _
  rw [hfiles]

/-- These findings are the given blocks, each sorted by the bindings of its time, which have grown
to `b`. -/
inductive Gathers (t : DeclType) : Findings → Bindings → List BlockSource → Prop where
  | nothing (b : Bindings) : Gathers t {} b []
  | addBlock {f : Findings} {b : Bindings} {blocks : List BlockSource} (h : Gathers t f b blocks)
    (block : BlockSource) : Gathers t (f.addBlock b t block) b (blocks ++ [block])
  | addFile {f : Findings} {b : Bindings} {blocks : List BlockSource} (h : Gathers t f b blocks)
    (file : SourceFile) : Gathers t { f with files := f.files.insert file } b blocks
  | grow {f : Findings} {b b' : Bindings} {blocks : List BlockSource} (h : Gathers t f b blocks)
    (hb : b.Grows b') : Gathers t f b' blocks

theorem Gathers.addBlocks (h : f.Gathers t b blocks) (file : SourceFile)
    (more : List BlockSource) : (f.addFile b t file more).Gathers t b (blocks ++ more) := by
  refine .addFile ?_ file
  induction more generalizing f blocks with
  | nil =>
    rw [List.append_nil]
    exact h
  | cons block more ih =>
    rw [← List.singleton_append, ← List.append_assoc]
    exact ih (h.addBlock block)

/-- A block under a type has it. -/
theorem Gathers.meet_of_mem (h : f.Gathers t b blocks) {t' : DeclType} {block : BlockSource}
    (hblock : block ∈ f.blocksOf t') : b.meet (.of block.keyword t) = some t' := by
  induction h with
  | nothing b => simp [blocksOf] at hblock
  | @addBlock f b blocks _ added ih =>
    rw [blocksOf_addBlock] at hblock
    rcases List.mem_append.mp hblock with hblock | hblock
    · exact ih hblock
    · split at hblock
      · rename_i hmeet
        obtain rfl := List.mem_singleton.mp hblock
        exact hmeet
      · exact absurd hblock List.not_mem_nil
  | addFile _ file ih => exact ih hblock
  | grow _ hb ih => exact hb.met _ _ (ih hblock)

/-- A block that waits has been visited. -/
theorem Gathers.exists_of_mem_waiting (h : f.Gathers t b blocks) {p : WaitingBlock}
    (hp : p ∈ f.waiting) : ∃ block ∈ blocks, p = .ofBlock t block := by
  induction h with
  | nothing b => exact absurd hp List.not_mem_nil
  | @addBlock f b blocks _ block ih =>
    rw [waiting_addBlock] at hp
    rcases List.mem_append.mp hp with hp | hp
    · obtain ⟨block', hblock', hp⟩ := ih hp
      exact ⟨block', List.mem_append_left _ hblock', hp⟩
    · split at hp
      · exact ⟨block, by simp, List.mem_singleton.mp hp⟩
      · exact absurd hp List.not_mem_nil
  | addFile _ file ih => exact ih hp
  | grow _ hb ih => exact ih hp

/-- The blocks without a type wait in the order of the visits. -/
theorem Gathers.filter_waiting (h : f.Gathers t b blocks) :
    (f.waiting.filter fun p => b.meet p.need = none) =
      (blocks.map (WaitingBlock.ofBlock t)).filter fun p => b.meet p.need = none := by
  induction h with
  | nothing b => rfl
  | @addBlock f b blocks _ block ih =>
    rw [waiting_addBlock, List.filter_append, ih, List.map_append, List.filter_append]
    congr 1
    by_cases hmeet : b.meet (.of block.keyword t) = none
    · rw [if_pos hmeet]
      rfl
    · rw [if_neg hmeet]
      exact (List.filter_cons_of_neg (by simp [hmeet])).symm
  | addFile _ file ih => exact ih
  | grow _ hb ih => rw [hb.filter_unmet, ih, ← hb.filter_unmet]

/-- The blocks that the bindings give a key, now or when they have grown, are those under its type
and those that wait for it, and the last of them is the last in its place. -/
theorem Gathers.goesTo (h : f.Gathers t b blocks) (hb : b.Grows b') (key : DeclKey) :
    let visited := blocks.filter fun block => (WaitingBlock.ofBlock t block).goesTo b' key
    let typed := (f.blocksOf key.declType).filter fun block => Text.foldCase block.name = key.name
    let waiting := (f.waiting.filter (WaitingBlock.goesTo b' key)).map WaitingBlock.block
    (∀ block, block ∈ visited ↔ block ∈ typed ∨ block ∈ waiting) ∧
      (visited.getLast? = typed.getLast? ∨ visited.getLast? = waiting.getLast?) := by
  induction h with
  | nothing b => simp [blocksOf]
  | @addBlock f b blocks _ block ih =>
    obtain ⟨hmem, hlast⟩ := ih hb
    simp only [blocksOf_addBlock, waiting_addBlock, List.filter_append, List.map_append]
    generalize blocks.filter _ = visited at *
    generalize (f.blocksOf key.declType).filter _ = typed at *
    generalize (f.waiting.filter _).map _ = waiting at *
    cases hmeet : b.meet (.of block.keyword t) with
    | none =>
      rw [if_neg (by simp), if_pos rfl]
      by_cases hgoes : (WaitingBlock.ofBlock t block).goesTo b' key = true
      · simp [hgoes, hmem, or_assoc]
      · simp [hgoes, hmem, hlast]
    | some t' =>
      have hgoes : (WaitingBlock.ofBlock t block).goesTo b' key = true ↔
          t' = key.declType ∧ Text.foldCase block.name = key.name := by
        rw [WaitingBlock.goesTo_iff, WaitingBlock.need_ofBlock, hb.met _ _ hmeet,
          Option.some.injEq, WaitingBlock.block_ofBlock]
      by_cases ht : t' = key.declType
      · by_cases hname : Text.foldCase block.name = key.name
        · simp [hgoes, ht, hname, hmem, or_assoc, or_comm]
        · simp [hgoes, ht, hname, hmem, hlast]
      · simp [hgoes, ht, hmem, hlast]
  | addFile _ file ih => exact ih hb
  | grow _ hgrow ih => exact ih (hgrow.trans hb)

end Findings

namespace Scan

variable {access : FileAccess} {b b' : Bindings} {v : Visits} {s s' : Scan}

/-- What the scan has found is what it has visited, sorted by bindings that have grown to `b`. -/
structure Gathers (s : Scan) (b : Bindings) (v : Visits) : Prop where
  files : s.found.files = v.files
  found : s.found.Gathers s.defaultType b v.blocks

theorem Gathers.grow (h : s.Gathers b v) (hb : b.Grows b') : s.Gathers b' v :=
  ⟨h.files, h.found.grow hb⟩

theorem defaultType_step (hstep : s.step access b = .running s') :
    s'.defaultType = s.defaultType := by
  have hsteps := steps_step access b s
  rw [hstep] at hsteps
  cases hsteps <;> rfl

theorem Gathers.step (h : s.Gathers b v) (hstep : s.step access b = .running s') :
    ∃ v', s'.Gathers b v' ∧ s'.visits access v' = s.visits access v := by
  have htype := defaultType_step hstep
  rcases visits_step h.files hstep with ⟨hfound, hvisits⟩ | ⟨file, blocks, hfound, hvisits⟩
  · refine ⟨v, ⟨?_, ?_⟩, hvisits⟩
    · rw [hfound, h.files]
    · rw [hfound, htype]
      exact h.found
  · refine ⟨v.add file blocks, ⟨?_, ?_⟩, hvisits⟩
    · rw [hfound, Findings.files_addFile, h.files]
      rfl
    · rw [hfound, htype]
      exact h.found.addBlocks file blocks

end Scan

end AssetDecl
