import AssetDecl.Scan
import AssetDecl.Proofs.CreatorBinding

/-!
# Findings sorted by the same bindings

`Findings.SortedBy` holds of what a scan finds while the bindings stay as they are, whatever happens
to the files (`Scan.sortedBy_step`, `Scan.sortedBy_run`). Every block is then under a type that has
a creator, or waits for something that is not there.
-/

namespace AssetDecl

namespace Findings

variable {b : Bindings} {t : DeclType} {f : Findings}

/-! ## The blocks that have a type -/

/-- All blocks with a type, by type. -/
def assigned (f : Findings) : List (DeclType × BlockSource) :=
  f.byType.toList.flatMap fun (t, blocks) => blocks.map (t, ·)

/-- Where no two entries are of one type, the blocks of a type are those of its entry. -/
theorem filter_flatMap_entries (entries : List (DeclType × List BlockSource)) (t : DeclType)
    (q : BlockSource → Bool) (blocks? : Option (List BlockSource))
    (hapart : entries.Pairwise fun e e' => e.1 ≠ e'.1)
    (hentry : ∀ blocks, (t, blocks) ∈ entries ↔ blocks? = some blocks) :
    ((entries.flatMap fun (t, blocks) => blocks.map (t, ·)).filter
        fun p => p.1 = t && q p.2).map Prod.snd = (blocks?.getD []).filter q := by
  induction entries generalizing blocks? with
  | nil =>
    have hnone : blocks? = none := by
      rw [Option.eq_none_iff_forall_ne_some]
      intro blocks hblocks
      exact List.not_mem_nil ((hentry blocks).mpr hblocks)
    rw [hnone]
    rfl
  | cons e entries ih =>
    obtain ⟨t', blocks'⟩ := e
    obtain ⟨hhead, hapart⟩ := List.pairwise_cons.mp hapart
    rw [List.flatMap_cons, List.filter_append, List.map_append]
    by_cases ht : t' = t
    · subst ht
      have hsome : blocks? = some blocks' := (hentry blocks').mp List.mem_cons_self
      have htail := ih none hapart fun blocks => by
        constructor
        · intro hmem
          exact absurd rfl (hhead (t', blocks) hmem)
        · intro h
          simp at h
      rw [htail, hsome, List.filter_map, List.map_map]
      simp [Function.comp_def]
    · have htail := ih blocks? hapart fun blocks => by
        rw [← hentry blocks, List.mem_cons]
        constructor
        · exact .inr
        · intro h
          exact h.resolve_left fun heq => ht (congrArg Prod.fst heq).symm
      rw [htail, List.filter_map, List.map_map]
      simp [Function.comp_def, ht]

theorem filter_assigned (f : Findings) (t : DeclType) (q : BlockSource → Bool) :
    (f.assigned.filter fun p => p.1 = t && q p.2).map Prod.snd = (f.blocksOf t).filter q := by
  refine filter_flatMap_entries f.byType.toList t q f.byType[t]? ?_ fun blocks =>
    Std.ExtTreeMap.mem_toList_iff_getElem?_eq_some
  apply Std.ExtTreeMap.distinct_keys_toList.imp
  intro e e' h heq
  apply h
  rw [DeclType.compare_eq_eq, heq]

theorem mem_assigned {f : Findings} {p : DeclType × BlockSource} :
    p ∈ f.assigned ↔ p.2 ∈ f.blocksOf p.1 := by
  have h := filter_assigned f p.1 fun _ => true
  simp only [Bool.and_true, List.filter_true] at h
  rw [← h, List.mem_map]
  constructor
  · intro hp
    exact ⟨p, List.mem_filter.mpr ⟨hp, decide_eq_true rfl⟩, rfl⟩
  · rintro ⟨⟨t, block⟩, hq, hblock⟩
    obtain ⟨hq, ht⟩ := List.mem_filter.mp hq
    obtain rfl : t = p.1 := of_decide_eq_true ht
    obtain rfl : block = p.2 := hblock
    exact hq

/-! ## Sorting -/

/-- These are the blocks of some files, each sorted by the same bindings. -/
inductive SortedBy (b : Bindings) (t : DeclType) : Findings → Prop where
  | nothing : SortedBy b t {}
  | addFile {f : Findings} (h : SortedBy b t f) (file : SourceFile) (blocks : List BlockSource) :
    SortedBy b t (f.addFile b t file blocks)

/-- The types have creators, and the blocks that wait do so for something that is not there. -/
structure Resolved (b : Bindings) (f : Findings) : Prop where
  created : ∀ t, f.byType.contains t → (b.typeCreator? t).isSome
  unmet : ∀ p ∈ f.waiting, b.meet p.need = none

theorem Resolved.addBlock (hb : b.Consistent) (h : f.Resolved b) (block : BlockSource) :
    (addBlock b t f block).Resolved b := by
  unfold Findings.addBlock
  split
  · rename_i t' ha
    refine ⟨?_, h.unmet⟩
    intro t'' hmem
    rw [Std.ExtTreeMap.contains_insert, Bool.or_eq_true, beq_iff_eq, DeclType.compare_eq_eq] at hmem
    rcases hmem with rfl | hmem
    · exact hb.isSome_of_assign ha
    · exact h.created t'' hmem
  · rename_i need ha
    refine ⟨h.created, ?_⟩
    intro p hp
    rcases List.mem_append.mp hp with hp | hp
    · exact h.unmet p hp
    · obtain rfl := List.mem_singleton.mp hp
      exact Bindings.meet_of_assign ha

theorem Resolved.foldl_addBlock (hb : b.Consistent) (blocks : List BlockSource)
    (h : f.Resolved b) : (blocks.foldl (Findings.addBlock b t) f).Resolved b := by
  induction blocks generalizing f with
  | nil => exact h
  | cons block blocks ih => exact ih (h.addBlock hb block)

theorem SortedBy.resolved (hb : b.Consistent) (h : f.SortedBy b t) : f.Resolved b := by
  induction h with
  | nothing =>
    constructor
    · intro t h
      simp at h
    · intro p hp
      exact absurd hp List.not_mem_nil
  | addFile _ file blocks ih =>
    have hblocks := ih.foldl_addBlock (t := t) hb blocks
    exact ⟨hblocks.created, hblocks.unmet⟩

theorem Resolved.of_assigned (h : f.Resolved b) {p : DeclType × BlockSource}
    (hp : p ∈ f.assigned) : (b.typeCreator? p.1).isSome := by
  obtain ⟨⟨t, blocks⟩, hmem, hp⟩ := List.mem_flatMap.mp hp
  obtain ⟨block, -, rfl⟩ := List.mem_map.mp hp
  apply h.created t
  rw [Std.ExtTreeMap.contains_eq_isSome_getElem?,
    Std.ExtTreeMap.mem_toList_iff_getElem?_eq_some.mp hmem]
  rfl

end Findings

namespace Scan

variable {access : FileAccess} {b : Bindings} {s s' : Scan} {f : Findings}

/-- All that a step can do. -/
inductive Steps (access : FileAccess) (b : Bindings) (s : Scan) : Progress → Prop where
  /-- The file that has been read is recorded. -/
  | record {file : SourceFile} {blocks : List BlockSource} (hcurrent : s.current = some (file, blocks)) :
    Steps access b s (.running { s with
      current := none
      found := s.found.addFile b s.defaultType file blocks })
  /-- A file is left out. -/
  | skip {file : SourceFile} {rest : List SourceFile} (hcurrent : s.current = none)
    (hqueue : s.queue = file :: rest)
    (hskip : s.opens file = false ∨ access.read file = .unreadable) :
    Steps access b s (.running { s with queue := rest })
  | read {file : SourceFile} {rest : List SourceFile} {blocks : List BlockSource}
    (hcurrent : s.current = none) (hqueue : s.queue = file :: rest) (hopens : s.opens file = true)
    (hread : access.read file = .blocks blocks) :
    Steps access b s (.running { s with queue := rest, current := some (file, blocks) })
  | crash {file : SourceFile} {rest : List SourceFile} (hcurrent : s.current = none)
    (hqueue : s.queue = file :: rest) (hopens : s.opens file = true)
    (hread : access.read file = .crashed) : Steps access b s .crashed
  | list {folder : DeclFolder} {others : List DeclFolder} (hcurrent : s.current = none)
    (hqueue : s.queue = []) (hfolders : s.folders = folder :: others) :
    Steps access b s (.running { s with
      folders := others
      queue := access.files folder.folder folder.extension s.limits.depthLimit })
  | finish (hcurrent : s.current = none) (hqueue : s.queue = []) (hfolders : s.folders = []) :
    Steps access b s (.finished s.found)

theorem steps_step (access : FileAccess) (b : Bindings) (s : Scan) :
    s.Steps access b (s.step access b) := by
  unfold step
  split
  · rename_i hcurrent
    exact .record hcurrent
  · rename_i file rest hcurrent hqueue
    have hopens : ({ s with queue := rest } : Scan).opens file = s.opens file := rfl
    unfold openNext
    dsimp only
    rw [hopens]
    cases ho : s.opens file with
    | false => exact .skip hcurrent hqueue (.inl ho)
    | true =>
      rw [if_pos rfl]
      cases hread : access.read file with
      | crashed => exact .crash hcurrent hqueue ho hread
      | unreadable => exact .skip hcurrent hqueue (.inr hread)
      | blocks blocks => exact .read hcurrent hqueue ho hread
  · rename_i hcurrent hqueue hfolders
    exact .list hcurrent hqueue hfolders
  · rename_i hcurrent hqueue hfolders
    exact .finish hcurrent hqueue hfolders

/-- A step finds nothing, or the blocks of one file. -/
theorem sortedBy_step (h : s.found.SortedBy b s.defaultType)
    (hstep : s.step access b = .running s') :
    s'.defaultType = s.defaultType ∧ s'.found.SortedBy b s.defaultType := by
  have hsteps := steps_step access b s
  rw [hstep] at hsteps
  cases hsteps with
  | record _ => exact ⟨rfl, h.addFile _ _⟩
  | skip _ _ _ => exact ⟨rfl, h⟩
  | read _ _ _ _ => exact ⟨rfl, h⟩
  | list _ _ _ => exact ⟨rfl, h⟩

theorem found_of_finished (hstep : s.step access b = .finished f) : s.found = f := by
  have hsteps := steps_step access b s
  rw [hstep] at hsteps
  cases hsteps with
  | finish _ _ _ => rfl

/-- What a scan finds while nothing changes is sorted by the bindings. -/
theorem sortedBy_run (h : s.found.SortedBy b s.defaultType) (hrun : s.run access b = some f) :
    f.SortedBy b s.defaultType := by
  unfold run at hrun
  split at hrun
  · rename_i found hfound
    obtain rfl := Option.some.inj hrun
    clear hrun
    fun_induction runUntil access b (fun _ => false) s with
    | case1 s s' hstep _ hstop => simp at hfound
    | case2 s s' hstep _ hstop ih =>
      obtain ⟨htype, hsorted⟩ := sortedBy_step h hstep
      rw [← htype] at hsorted ⊢
      exact ih hsorted hfound
    | case3 s found' hstep =>
      obtain rfl := Progress.finished.inj hfound
      rw [← found_of_finished hstep]
      exact h
    | case4 s hstep => simp at hfound
  · simp at hrun

end Scan

end AssetDecl
