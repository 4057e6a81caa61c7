import AssetDecl.Proofs.InstalledBlocks
import AssetDecl.Proofs.SortedFindings

/-!
# Installing a scan

Whatever a scan has found, a completed scan leaves a catalogue sound and settled. If the findings
are sorted by the bindings of the catalogue, all of them are installed and the waiting blocks, tried
again, wait further (`installScan_of_resolved`).
-/

namespace AssetDecl

/-- The last block of a key. -/
def Findings.lastBlock? (f : Findings) (key : DeclKey) : Option BlockSource :=
  ((f.blocksOf key.declType).filter fun block => Text.foldCase block.name = key.name).getLast?

theorem Findings.lastBlock?_eq (f : Findings) (key : DeclKey) :
    f.lastBlock? key =
      (f.assigned.filter fun p => DeclKey.of p.1 p.2.name = key).getLast?.map Prod.snd := by
  have hkey : (fun p : DeclType × BlockSource => decide (DeclKey.of p.1 p.2.name = key)) =
      fun p => p.1 = key.declType && Text.foldCase p.2.name = key.name := by
    funext p
    obtain ⟨t, name⟩ := key
    simp only [DeclKey.of, DeclKey.mk.injEq, Bool.decide_and]
  rw [hkey, ← List.getLast?_map, Findings.filter_assigned f key.declType fun block =>
    Text.foldCase block.name = key.name]
  rfl

theorem Findings.sees_eq (f : Findings) (key : DeclKey) :
    f.sees key = (f.lastBlock? key).isSome := by
  unfold sees lastBlock?
  rw [Bool.eq_iff_iff, List.any_eq_true, List.getLast?_isSome, ne_eq, List.filter_eq_nil_iff]
  simp

theorem Findings.sees_iff {f : Findings} {key : DeclKey} :
    f.sees key = true ↔ ∃ p ∈ f.assigned, DeclKey.of p.1 p.2.name = key := by
  obtain ⟨t, name⟩ := key
  unfold sees
  rw [List.any_eq_true]
  constructor
  · rintro ⟨block, hblock, hname⟩
    exact ⟨(t, block), mem_assigned.mpr hblock, congrArg (DeclKey.mk t) (beq_iff_eq.mp hname)⟩
  · rintro ⟨⟨t', block⟩, hblock, hkey⟩
    obtain ⟨rfl, hname⟩ := DeclKey.mk.inj hkey
    exact ⟨block, mem_assigned.mp hblock, beq_iff_eq.mpr hname⟩

namespace Catalogue

variable {cat : Catalogue} {t : DeclType} {previous : FileSet} {f : Findings}

/-- The store without what has vanished, once the findings have been put into it. -/
def installFound (cat : Catalogue) (t : DeclType) (f : Findings) : Installing :=
  f.assigned.foldl (Installing.putFound cat.bindings t)
    { store := cat.store.dropVanished t f.sees
      changed := .ofList (cat.store.vanishedTypes t f.sees) }

/-- The catalogue with its findings, before its waiting blocks are tried again. -/
def withFound (cat : Catalogue) (t : DeclType) (previous : FileSet) (f : Findings) : Catalogue :=
  { cat with
    store := (cat.installFound t f).store
    waiting := cat.waiting.filter (·.origin ≠ t) ++ (cat.installFound t f).left ++ f.waiting
    visited := cat.visited.insert t { files := f.files, diff := .between previous f.files } }

theorem installScan_eq (cat : Catalogue) (t : DeclType) (previous : FileSet) (f : Findings) :
    cat.installScan t previous f =
      (cat.withFound t previous f).retryWaiting (cat.installFound t f).changed := by
  have hfold : cat.installFound t f =
      f.byType.toList.foldl (fun i p =>
        p.2.foldl (fun i block =>
          Installing.put cat.bindings p.1 i ⟨.of block.keyword t, block, t⟩) i)
      { store := cat.store.dropVanished t f.sees
        changed := .ofList (cat.store.vanishedTypes t f.sees) } := by
    unfold installFound Findings.assigned
    rw [List.foldl_flatMap]
    congr 1
    funext i p
    rw [List.foldl_map]
    rfl
  unfold withFound
  rw [hfold]
  rfl

/-! ## Any findings -/

theorem Sound.withFound (h : cat.Sound) (t : DeclType) (previous : FileSet) (f : Findings) :
    (cat.withFound t previous f).Sound :=
  ⟨h.bindings, Installing.sound_foldl (fun _ _ => Installing.sound_put) f.assigned
    (h.store.dropVanished t f.sees)⟩

theorem Sound.installScan (h : cat.Sound) (t : DeclType) (previous : FileSet) (f : Findings) :
    (cat.installScan t previous f).1.Sound := by
  rw [installScan_eq]
  exact (h.withFound t previous f).retryWaiting _

theorem settled_installScan (h : cat.Sound) (t : DeclType) (previous : FileSet) (f : Findings) :
    (cat.installScan t previous f).1.Settled := by
  rw [installScan_eq]
  exact settled_retryWaiting (h.withFound t previous f) _

/-! ## Findings sorted by the bindings -/

theorem installFound_of_resolved (h : cat.Sound) (hf : f.Resolved cat.bindings)
    (hkeeps : cat.bindings.KeepsBlocks) :
    (cat.installFound t f).left = [] ∧
      ∀ key, Stored.Follows t ((cat.store.dropVanished t f.sees).stored? key) (f.lastBlock? key)
        ((cat.installFound t f).store.stored? key) := by
  obtain ⟨hleft, -, hfollows⟩ := Installing.foldl_putFound hkeeps t f.assigned
    (fun p => hf.of_assigned)
    (i := { store := cat.store.dropVanished t f.sees
            changed := .ofList (cat.store.vanishedTypes t f.sees) })
    (h.store.dropVanished t f.sees)
  refine ⟨hleft, ?_⟩
  intro key
  rw [Findings.lastBlock?_eq]
  exact hfollows key

/-- The last block of a key is stored under it, in the declaration that was there before. -/
theorem stored?_withFound_of_some (h : cat.Sound) (hf : f.Resolved cat.bindings)
    (hkeeps : cat.bindings.KeepsBlocks) {key : DeclKey} {block : BlockSource}
    (hlast : f.lastBlock? key = some block) :
    ∃ st, (cat.withFound t previous f).store.stored? key = some st ∧
      st.declaration.block = block ∧ st.origin = some t ∧
      ∀ old, cat.store.stored? key = some old → st.handle = old.handle := by
  have hfollows := (installFound_of_resolved (t := t) h hf hkeeps).2 key
  have hseen : f.sees key = true := by rw [Findings.sees_eq, hlast, Option.isSome_some]
  have hold : (cat.store.dropVanished t f.sees).stored? key = cat.store.stored? key := by
    rw [Store.stored?_dropVanished, hseen]
    simp only [Bool.or_true]
    cases cat.store.stored? key <;> rfl
  rw [hold, hlast] at hfollows
  exact hfollows

/-- Without a block of its key, an entry is kept unless it is of the origin that was scanned. -/
theorem stored?_withFound_of_none (h : cat.Sound) (hf : f.Resolved cat.bindings)
    (hkeeps : cat.bindings.KeepsBlocks) {key : DeclKey} (hlast : f.lastBlock? key = none) :
    (cat.withFound t previous f).store.stored? key =
      (cat.store.stored? key).filter fun st => st.origin ≠ some t := by
  have hfollows := (installFound_of_resolved (t := t) h hf hkeeps).2 key
  have hseen : f.sees key = false := by rw [Findings.sees_eq, hlast, Option.isSome_none]
  have hold : (cat.store.dropVanished t f.sees).stored? key =
      (cat.store.stored? key).filter fun st => st.origin ≠ some t := by
    rw [Store.stored?_dropVanished, hseen]
    congr 1
    funext st
    rw [Bool.or_false, Bool.eq_iff_iff, bne_iff_ne, decide_eq_true_eq]
  rw [hold, hlast] at hfollows
  exact hfollows

theorem settled_withFound (hs : cat.Settled) (hf : f.Resolved cat.bindings)
    (hleft : (cat.installFound t f).left = []) : (cat.withFound t previous f).Settled := by
  intro p hp
  have hp : p ∈ cat.waiting.filter (·.origin ≠ t) ++ (cat.installFound t f).left ++ f.waiting := hp
  rw [hleft, List.append_nil] at hp
  rcases List.mem_append.mp hp with hp | hp
  · exact hs p (List.mem_filter.mp hp).1
  · exact hf.unmet p hp

/-- Trying the waiting blocks again adds nothing to what has been found. -/
theorem installScan_of_resolved (h : cat.Sound) (hs : cat.Settled) (hf : f.Resolved cat.bindings)
    (hkeeps : cat.bindings.KeepsBlocks) :
    cat.installScan t previous f =
      (cat.withFound t previous f, (cat.installFound t f).changed) := by
  have hleft := (installFound_of_resolved (t := t) h hf hkeeps).1
  rw [installScan_eq, retryWaiting_of_settled (settled_withFound hs hf hleft)]

end Catalogue

end AssetDecl
