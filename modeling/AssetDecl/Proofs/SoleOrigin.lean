import AssetDecl.Proofs.InstalledAspects
import AssetDecl.Proofs.ReachableSystem

/-!
# Catalogues of one default type

Where all folders have one default type and no declaration is made on demand, every entry of the
store and every waiting block comes from a scan of that type (`System.Sole.perform`). A completed
scan then leaves nothing of what was there before: the store and the waiting blocks are made from
its findings alone (`Catalogue.Sole.held?_installScan`, `Catalogue.Sole.waiting_installScan`).
-/

namespace AssetDecl

/-! ## Stores -/

namespace Store

variable {s s' : Store} {t : DeclType}

/-- The sources of all declarations come from scans of this type. -/
def OfOrigin (t : DeclType) (s : Store) : Prop :=
  ∀ (key : DeclKey) entry, s.entries[key]? = some entry → entry.origin = some t

theorem ofOrigin_empty (t : DeclType) : ({} : Store).OfOrigin t := by
  intro key entry h
  simp at h

theorem OfOrigin.remove (h : s.OfOrigin t) (t' : DeclType) (name : String) :
    (s.remove t' name).2.OfOrigin t := by
  intro key entry hentry
  unfold Store.remove at hentry
  rw [Std.ExtTreeMap.getElem?_erase] at hentry
  split at hentry
  · simp at hentry
  · exact h key entry hentry

theorem OfOrigin.dropVanished (h : s.OfOrigin t) (origin : DeclType) (seen : DeclKey → Bool) :
    (s.dropVanished origin seen).OfOrigin t := by
  intro key entry hentry
  rw [entries_dropVanished] at hentry
  exact h key entry (Option.filter_eq_some_iff.mp hentry).1

theorem OfOrigin.install {b : Bindings} {t' : DeclType} {block : BlockSource} (h : s.OfOrigin t)
    (hs : s.install b t' block t = some s') : s'.OfOrigin t := by
  have hinsert : ∀ (key : DeclKey) (handle : Handle) (key' : DeclKey) entry,
      (s.entries.insert key ⟨handle, some t⟩)[key']? = some entry → entry.origin = some t := by
    intro key handle key' entry hentry
    rw [Std.ExtTreeMap.getElem?_insert] at hentry
    split at hentry
    · rw [← Option.some.inj hentry]
    · exact h key' entry hentry
  unfold Store.install at hs
  split at hs
  · simp at hs
  · dsimp only at hs
    split at hs
    · obtain rfl := Option.some.inj hs
      exact hinsert _ _
    · obtain rfl := Option.some.inj hs
      exact hinsert _ _

theorem OfOrigin.of_stored? (h : s.OfOrigin t) {key : DeclKey} {st : Stored}
    (hst : s.stored? key = some st) : st.origin = some t := by
  obtain ⟨entry, hentry, hst⟩ := Option.bind_eq_some_iff.mp hst
  obtain ⟨d, -, rfl⟩ := Option.map_eq_some_iff.mp hst
  exact h key entry hentry

end Store

/-- Of one origin, what has not been seen vanishes. -/
theorem Aspect.held?_dropVanished {β : Type} {b : Bindings} (a : Aspect b β) {s : Store}
    {t : DeclType} (h : s.OfOrigin t) (seen : DeclKey → Bool) (key : DeclKey) :
    a.held? (s.dropVanished t seen) key = if seen key then a.held? s key else none := by
  unfold held?
  rw [Store.stored?_dropVanished]
  cases hst : s.stored? key with
  | none => simp
  | some st =>
    rw [Option.filter_some, h.of_stored? hst, bne_self_eq_false, Bool.false_or]
    split <;> rfl

/-! ## Catalogues -/

namespace Catalogue

variable {cat cat' : Catalogue} {t : DeclType} {previous : FileSet} {f : Findings}

/-- What is installed and what is left waiting comes from scans of this type. -/
structure Installing.OfOrigin (t : DeclType) (i : Installing) : Prop where
  store : i.store.OfOrigin t
  left : ∀ p ∈ i.left, p.origin = t

namespace Installing.OfOrigin

variable {b : Bindings} {i : Installing} {p : WaitingBlock}

theorem put (h : i.OfOrigin t) (hp : p.origin = t) (t' : DeclType) :
    (i.put b t' p).OfOrigin t := by
  subst hp
  unfold Installing.put
  split
  · rename_i hs
    exact ⟨h.store.install hs, h.left⟩
  · refine ⟨h.store, ?_⟩
    intro q hq
    rcases List.mem_append.mp hq with hq | hq
    · exact h.left q hq
    · rw [List.mem_singleton.mp hq]

theorem retry (h : i.OfOrigin t) (hp : p.origin = t) : (i.retry b p).OfOrigin t := by
  cases hm : b.meet p.need with
  | none =>
    rw [retry_of_unmet hm]
    refine ⟨h.store, ?_⟩
    intro q hq
    rcases List.mem_append.mp hq with hq | hq
    · exact h.left q hq
    · rw [List.mem_singleton.mp hq, hp]
  | some t' =>
    unfold Installing.retry
    rw [hm]
    exact h.put hp t'

end Installing.OfOrigin

/-- Everything in the catalogue is of one default type. -/
structure Sole (t : DeclType) (cat : Catalogue) : Prop where
  folders : ∀ folder ∈ cat.folders, folder.defaultType = t
  store : cat.store.OfOrigin t
  waiting : ∀ p ∈ cat.waiting, p.origin = t
  visited : ∀ t' ≠ t, cat.visitedOf t' = {}

theorem Sole.eq_of_mem_defaultTypes (h : cat.Sole t) {t' : DeclType} (ht' : t' ∈ cat.defaultTypes) :
    t' = t := by
  unfold defaultTypes DeclType.sorted at ht'
  rw [Std.ExtTreeMap.mem_keys, Std.ExtTreeMap.mem_unitOfList] at ht'
  obtain ⟨folder, hfolder, rfl⟩ := List.mem_map.mp (List.contains_iff_mem.mp ht')
  exact h.folders folder hfolder

theorem Sole.retryWaiting (h : cat.Sole t) (changed : TypeSet) :
    (cat.retryWaiting changed).1.Sole t := by
  have hi : (cat.waiting.foldl (Installing.retry cat.bindings)
      { store := cat.store, changed }).OfOrigin t := by
    refine List.foldlRecOn (motive := fun i : Installing => i.OfOrigin t) cat.waiting _ ?_ ?_
    · exact ⟨h.store, fun p hp => absurd hp List.not_mem_nil⟩
    · exact fun i hi p hp => hi.retry (h.waiting p hp)
  exact ⟨h.folders, hi.store, hi.left, h.visited⟩

theorem Sole.addFolder (h : cat.Sole t) (folder extension : String) :
    (cat.addFolder t folder extension).2.Sole t := by
  refine ⟨?_, h.store, h.waiting, h.visited⟩
  intro entry hentry
  unfold Catalogue.addFolder at hentry
  dsimp only [launch] at hentry
  split at hentry
  · exact h.folders entry hentry
  · rcases List.mem_append.mp hentry with hentry | hentry
    · exact h.folders entry hentry
    · rw [List.mem_singleton.mp hentry]
      rfl

theorem Sole.rescan (h : cat.Sole t) : cat.rescan.2.Sole t := by
  unfold Catalogue.rescan
  refine List.foldlRecOn (motive := fun sc : List StartedScan × Catalogue => sc.2.Sole t)
    cat.defaultTypes _ h ?_
  intro sc hsc t' _
  exact ⟨hsc.folders, hsc.store, hsc.waiting, hsc.visited⟩

theorem SameButTickets.sole (hsame : cat.SameButTickets cat') (h : cat.Sole t) : cat'.Sole t := by
  obtain ⟨tickets, superseded, rfl⟩ := hsame
  exact ⟨h.folders, h.store, h.waiting, h.visited⟩

/-! ## Completed scans -/

theorem Sole.installFound (h : cat.Sole t) (f : Findings) : (cat.installFound t f).OfOrigin t := by
  refine List.foldlRecOn (motive := fun i : Installing => i.OfOrigin t) f.assigned _ ?_ ?_
  · exact ⟨h.store.dropVanished t f.sees, fun p hp => absurd hp List.not_mem_nil⟩
  · exact fun i hi p _ => hi.put rfl p.1

theorem Sole.filter_waiting (h : cat.Sole t) : cat.waiting.filter (·.origin ≠ t) = [] := by
  rw [List.filter_eq_nil_iff]
  intro p hp
  simp [h.waiting p hp]

theorem visitedOf_withFound (cat : Catalogue) (previous : FileSet) (f : Findings) (t' : DeclType) :
    (cat.withFound t previous f).visitedOf t' =
      if t = t' then { files := f.files, diff := .between previous f.files }
      else cat.visitedOf t' := by
  unfold visitedOf withFound
  simp only [Std.ExtTreeMap.getElem?_insert, DeclType.compare_eq_eq]
  split <;> rfl

theorem Sole.withFound (h : cat.Sole t) (hf : ∀ p ∈ f.waiting, p.origin = t) :
    (cat.withFound t previous f).Sole t := by
  refine ⟨h.folders, (h.installFound f).store, ?_, ?_⟩
  · intro p hp
    rcases List.mem_append.mp hp with hp | hp
    · rw [h.filter_waiting, List.nil_append] at hp
      exact (h.installFound f).left p hp
    · exact hf p hp
  · intro t' ht'
    rw [visitedOf_withFound, if_neg ht'.symm]
    exact h.visited t' ht'

theorem Sole.installScan (h : cat.Sole t) (hf : ∀ p ∈ f.waiting, p.origin = t) :
    (cat.installScan t previous f).1.Sole t := by
  rw [installScan_eq]
  exact (h.withFound hf).retryWaiting _

variable (hcreated : ∀ p ∈ f.assigned, (cat.bindings.typeCreator? p.1).isSome)

include hcreated in
theorem Sole.waiting_withFound (h : cat.Sole t) :
    (cat.withFound t previous f).waiting = f.waiting := by
  have hleft : (cat.installFound t f).left = [] :=
    Installing.left_foldl_putFound t f.assigned hcreated
  show cat.waiting.filter (·.origin ≠ t) ++ (cat.installFound t f).left ++ f.waiting = f.waiting
  rw [h.filter_waiting, hleft]
  rfl

include hcreated in
/-- The blocks that were found without a type wait, but for those whose needs are met by now. -/
theorem Sole.waiting_installScan (h : cat.Sole t) (hs : cat.Sound) :
    (cat.installScan t previous f).1.waiting =
      f.waiting.filter fun p => cat.bindings.meet p.need = none := by
  rw [installScan_eq, waiting_retryWaiting (hs.withFound t previous f),
    h.waiting_withFound hcreated]
  rfl

include hcreated in
/-- Under every key is the last block of it that was found without a type and whose need is met by
now, or else the last that was found under its type. -/
theorem Sole.held?_installScan (h : cat.Sole t) (hs : cat.Sound) {β : Type} {b : Bindings}
    (a : Aspect b β) (hgrows : cat.bindings.Grows b) (key : DeclKey) :
    a.held? (cat.installScan t previous f).1.store key =
      ((f.waiting.filter (WaitingBlock.goesTo cat.bindings key)).getLast?.map
        fun p => a.ofBlock p.block).or ((f.lastBlock? key).map a.ofBlock) := by
  have hfound : a.held? (cat.withFound t previous f).store key =
      (f.lastBlock? key).map a.ofBlock := by
    show a.held? (cat.installFound t f).store key = _
    unfold Catalogue.installFound
    rw [a.held?_foldl_putFound hgrows hs.bindings (hs.store.dropVanished t f.sees) t hcreated key,
      a.held?_dropVanished h.store, Findings.sees_eq, Findings.lastBlock?_eq, Option.map_map]
    cases (f.assigned.filter fun p => DeclKey.of p.1 p.2.name = key).getLast? <;> rfl
  have hgrows : (cat.withFound t previous f).bindings.Grows b := hgrows
  rw [installScan_eq, a.held?_retryWaiting hgrows (hs.withFound t previous f), hfound,
    h.waiting_withFound hcreated]
  rfl

end Catalogue

/-! ## Scans -/

/-- A scan of this type, which has found blocks of this origin. -/
structure Scan.OfType (t : DeclType) (s : Scan) : Prop where
  defaultType : s.defaultType = t
  waiting : ∀ p ∈ s.found.waiting, p.origin = t

theorem Findings.origin_addFile {b : Bindings} {t : DeclType} {f : Findings}
    (h : ∀ p ∈ f.waiting, p.origin = t) (file : SourceFile) (blocks : List BlockSource) :
    ∀ p ∈ (f.addFile b t file blocks).waiting, p.origin = t := by
  refine List.foldlRecOn (motive := fun f : Findings => ∀ p ∈ f.waiting, p.origin = t) blocks
    (Findings.addBlock b t) h ?_
  intro f hf block _ p hp
  rw [waiting_addBlock] at hp
  rcases List.mem_append.mp hp with hp | hp
  · exact hf p hp
  · split at hp
    · rw [List.mem_singleton.mp hp]
      rfl
    · exact absurd hp List.not_mem_nil

theorem Scan.OfType.step {access : FileAccess} {b : Bindings} {t : DeclType} {s s' : Scan}
    (h : s.OfType t) (hstep : s.step access b = .running s') : s'.OfType t := by
  have hsteps := steps_step access b s
  rw [hstep] at hsteps
  cases hsteps with
  | @record file blocks _ =>
    obtain ⟨rfl, hwaiting⟩ := h
    exact ⟨rfl, Findings.origin_addFile hwaiting file blocks⟩
  | skip _ _ _ => exact ⟨h.defaultType, h.waiting⟩
  | read _ _ _ _ => exact ⟨h.defaultType, h.waiting⟩
  | list _ _ _ => exact ⟨h.defaultType, h.waiting⟩

theorem Catalogue.ofType_launch (cat : Catalogue) (t : DeclType) :
    (cat.launch t).1.scan.OfType t :=
  ⟨rfl, fun _ hp => absurd hp List.not_mem_nil⟩

/-! ## Systems -/

namespace System

variable {s : System} {t : DeclType}

/-- The catalogue and the scans under way are of one default type. -/
structure Sole (t : DeclType) (s : System) : Prop where
  catalogue : s.catalogue.Sole t
  scans : ∀ r ∈ s.scans, r.scan.OfType t

/-- No declaration is made on demand, and no folder of another default type is added. -/
def Event.KeepsTo (t : DeclType) : Event → Prop
  | .addFolder t' _ _ => t' = t
  | .findOrCreate _ _ => False
  | _ => True

theorem sole_start (limits : ScanLimits) (t : DeclType) :
    ({ catalogue := { limits } } : System).Sole t := by
  refine ⟨⟨?_, Store.ofOrigin_empty t, ?_, ?_⟩, ?_⟩
  · exact fun folder hfolder => absurd hfolder List.not_mem_nil
  · exact fun p hp => absurd hp List.not_mem_nil
  · intro t' _
    simp [Catalogue.visitedOf]
  · exact fun r hr => absurd hr List.not_mem_nil

theorem Sole.become {cat? : Option Catalogue} (h : s.Sole t)
    (hcat : ∀ cat, cat? = some cat → s.catalogue.SameButTickets cat) : (s.become cat?).Sole t :=
  ⟨(sameButTickets_become hcat).sole h.catalogue, h.scans⟩

theorem Sole.bind (h : s.Sole t) (keyword : String) (c : Creator) : (s.bind keyword c).Sole t := by
  unfold System.bind
  split
  · exact h
  · exact ⟨⟨h.catalogue.folders, h.catalogue.store, h.catalogue.waiting, h.catalogue.visited⟩,
      h.scans⟩

theorem Sole.retry (h : s.Sole t) : s.retry.Sole t := by
  rw [System.retry_eq]
  split
  · exact h
  · exact ⟨h.catalogue.retryWaiting ∅, h.scans⟩

theorem Sole.unbind (h : s.Sole t) (keyword : String) (order : TableOrder String) :
    (s.unbind keyword order).Sole t := by
  unfold System.unbind Catalogue.unbindType
  cases s.catalogue.bindings.unbindKeyword keyword order with
  | error e => exact h
  | ok unbound =>
    exact ⟨⟨h.catalogue.folders, h.catalogue.store, h.catalogue.waiting, h.catalogue.visited⟩,
      h.scans⟩

theorem Sole.start {started : List StartedScan} {cat : Catalogue} (h : s.Sole t)
    (hcat : cat.Sole t) (hstarted : ∀ r ∈ started, r.scan.OfType t) :
    (s.start (started, cat)).Sole t := by
  refine ⟨hcat, ?_⟩
  intro r hr
  rcases List.mem_append.mp hr with hr | hr
  · exact h.scans r hr
  · exact hstarted r hr

theorem Sole.advance (h : s.Sole t) (index : Nat) (access : FileAccess) :
    (s.advance index access).Sole t := by
  rw [System.advance_eq]
  cases hr : s.scans[index]? with
  | none => exact h
  | some r =>
    have hscan := h.scans r (List.mem_of_getElem? hr)
    have herase : ∀ r' ∈ s.scans.eraseIdx index, r'.scan.OfType t := fun r' hr' =>
      h.scans r' (List.mem_of_mem_eraseIdx hr')
    dsimp only
    cases hstep : r.scan.step access s.catalogue.bindings with
    | running scan =>
      refine ⟨h.catalogue, fun r' hr' => ?_⟩
      rcases List.mem_or_eq_of_mem_set hr' with hr' | rfl
      · exact h.scans r' hr'
      · exact hscan.step hstep
    | finished found =>
      refine ⟨?_, herase⟩
      show (s.catalogue.completeScan r found).1.Sole t
      unfold Catalogue.completeScan
      split
      · rw [← Scan.found_of_finished hstep, hscan.defaultType]
        exact h.catalogue.installScan hscan.waiting
      · exact h.catalogue
    | crashed =>
      exact ⟨⟨h.catalogue.folders, h.catalogue.store, h.catalogue.waiting, h.catalogue.visited⟩,
        herase⟩

/-- Every event that keeps to the type leaves nothing of another origin. -/
theorem Sole.perform (h : s.Sole t) {e : Event} (he : e.KeepsTo t) : (s.perform e).Sole t := by
  obtain ⟨hfolders, hstore, hwaiting, hvisited⟩ := h.catalogue
  cases e with
  | bind keyword c => exact h.bind keyword c
  | retry => exact h.retry
  | unbind keyword order => exact h.unbind keyword order
  | addFolder t' folder extension =>
    obtain rfl : t' = t := he
    refine h.start (h.catalogue.addFolder folder extension) fun r hr => ?_
    rw [List.mem_singleton.mp hr]
    exact Catalogue.ofType_launch _ t'
  | rescan =>
    refine h.start h.catalogue.rescan fun r hr => ?_
    obtain ⟨cat, t', ht', rfl⟩ := Catalogue.launched_of_mem_rescan hr
    obtain rfl := h.catalogue.eq_of_mem_defaultTypes ht'
    exact Catalogue.ofType_launch cat t'
  | findOrCreate t' name => exact absurd he id
  | remove t' name => exact ⟨⟨hfolders, hstore.remove t' name, hwaiting, hvisited⟩, h.scans⟩
  | setBlock handle block => exact ⟨⟨hfolders, hstore, hwaiting, hvisited⟩, h.scans⟩
  | advance index access => exact h.advance index access
  | leave index =>
    show (s.leave index).Sole t
    unfold System.leave
    split
    · exact h
    · exact ⟨⟨hfolders, hstore, hwaiting, hvisited⟩, h.scans⟩
  | await t' => exact h.become fun cat hcat => Catalogue.sameButTickets_awaitType hcat
  | awaitAll => exact h.become fun cat hcat => Catalogue.sameButTickets_joinCurrent hcat
  | joinEvery => exact h.become fun cat hcat => Catalogue.sameButTickets_joinEvery hcat
  | connect t' watcher => exact ⟨⟨hfolders, hstore, hwaiting, hvisited⟩, h.scans⟩
  | disconnect t' id => exact ⟨⟨hfolders, hstore, hwaiting, hvisited⟩, h.scans⟩

theorem Sole.run (h : s.Sole t) {es : List Event} (hes : ∀ e ∈ es, e.KeepsTo t) :
    (es.foldl System.perform s).Sole t :=
  List.foldlRecOn (motive := fun s : System => s.Sole t) es _ h fun _ hs e he =>
    hs.perform (hes e he)

end System

end AssetDecl
