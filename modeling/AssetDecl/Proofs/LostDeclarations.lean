import AssetDecl.Proofs.DeferredBlocks
import AssetDecl.Proofs.EndedScans
import AssetDecl.SearchPath

/-!
# Lost declarations

A stored declaration has one origin, the type of the scan that its source is from. Where scans of
two types have found blocks of its key, the scan of the origin drops it as soon as it finds none any
more, although a file still defines it (`System.lost_declaration`). There is no other way to lose
it: a block that the last installed scan of its type has found waits, or a declaration is stored
under its key, or a scan of another type has dropped that (`System.stored_or_dropped`).
-/

namespace AssetDecl

/-- All blocks, with a type or without. -/
def Findings.blocks (f : Findings) : List BlockSource :=
  f.assigned.map Prod.snd ++ f.waiting.map WaitingBlock.block

namespace Catalogue

variable {cat cat' : Catalogue} {t : DeclType} {previous : FileSet} {f : Findings}
  {p : WaitingBlock} {block : BlockSource} {blocks : List BlockSource} {gone gone' : DeclKey → Prop}

/-! ## Covered blocks -/

/-- The block waits, or a declaration is stored under its key or is gone. -/
def Covers (gone : DeclKey → Prop) (p : WaitingBlock) (cat : Catalogue) : Prop :=
  p ∈ cat.waiting ∨
    ∃ key, p.goesTo cat.bindings key ∧ ((cat.store.stored? key).isSome ∨ gone key)

theorem Covers.mono (h : cat.Covers gone p) (hgone : ∀ key, gone key → gone' key) :
    cat.Covers gone' p := by
  rcases h with hwaits | ⟨key, hgoes, hstored⟩
  · exact .inl hwaits
  · exact .inr ⟨key, hgoes, hstored.imp_right (hgone key)⟩

/-- Where nothing stops waiting or being stored, what is covered stays so. -/
theorem Covers.of_keeps (h : cat.Covers gone p) (hb : cat.bindings.Grows cat'.bindings)
    (hwaiting : cat'.waiting = cat.waiting)
    (hstored : ∀ key, (cat.store.stored? key).isSome → (cat'.store.stored? key).isSome) :
    cat'.Covers gone p := by
  rcases h with hwaits | ⟨key, hgoes, hkey⟩
  · exact .inl (hwaiting ▸ hwaits)
  · exact .inr ⟨key, WaitingBlock.goesTo_grow hb hgoes, hkey.imp_left (hstored key)⟩

theorem Covers.of_agrees (h : cat.Covers gone p) (hagrees : cat.Agrees cat') :
    cat'.Covers gone p := by
  refine h.of_keeps ?_ hagrees.waiting ?_
  · rw [hagrees.bindings]
    exact .refl _
  · rw [hagrees.store]
    exact fun _ hkey => hkey

theorem Covers.retryWaiting (h : cat.Covers gone p) (hs : cat.Sound) (changed : TypeSet) :
    (cat.retryWaiting changed).1.Covers gone p := by
  have hstored := isSome_stored?_retryWaiting hs changed
  rcases h with hwaits | ⟨key, hgoes, hkey⟩
  · cases hmeet : cat.bindings.meet p.need with
    | none =>
      left
      rw [waiting_retryWaiting hs]
      exact List.mem_filter.mpr ⟨hwaits, decide_eq_true hmeet⟩
    | some t =>
      have hgoes : p.goesTo cat.bindings (.of t p.block.name) :=
        WaitingBlock.goesTo_iff.mpr ⟨hmeet, rfl⟩
      exact .inr ⟨_, hgoes, .inl ((hstored _).mpr (.inl ⟨p, hwaits, hgoes⟩))⟩
  · exact .inr ⟨key, hgoes, hkey.imp_left fun h => (hstored key).mpr (.inr h)⟩

/-! ## Installed scans -/

/-- What a scan of type `t` drops is of its own origin, and it has not found a block of its key. -/
def Drops (cat : Catalogue) (t : DeclType) (f : Findings) (key : DeclKey) : Prop :=
  ∃ st, cat.store.stored? key = some st ∧ st.origin = some t ∧ f.sees key = false

section

variable (hs : cat.Sound) (hf : f.Gathers t cat.bindings blocks)

include hs hf

theorem isSome_stored?_withFound (key : DeclKey) :
    ((cat.withFound t previous f).store.stored? key).isSome ↔
      f.sees key = true ∨ ∃ st, cat.store.stored? key = some st ∧ st.origin ≠ some t := by
  have hcreated : ∀ p ∈ f.assigned, (cat.bindings.typeCreator? p.1).isSome := fun p hp =>
    hs.bindings.isSome_of_meet (hf.meet_of_mem (Findings.mem_assigned.mp hp))
  have hheld : (Aspect.presence cat.bindings).held? (cat.withFound t previous f).store key = _ :=
    (Aspect.presence cat.bindings).held?_foldl_putFound (.refl _) hs.bindings
      (hs.store.dropVanished t f.sees) t hcreated key
  rw [← Option.isSome_map, ← Aspect.held?, hheld, isSome_last_or, Aspect.held?, Option.isSome_map,
    Store.stored?_dropVanished]
  simp only [decide_eq_true_eq, ← Findings.sees_iff]
  cases hsees : f.sees key with
  | true => simp
  | false => simp [Option.isSome_filter, Option.any_eq_true]

theorem Covers.withFound (h : cat.Covers gone p) (hp : p.origin ≠ t) :
    (cat.withFound t previous f).Covers (fun key => gone key ∨ cat.Drops t f key) p := by
  rcases h with hwaits | ⟨key, hgoes, hstored | hgone⟩
  · left
    refine List.mem_append_left _ (List.mem_append_left _ ?_)
    exact List.mem_filter.mpr ⟨hwaits, decide_eq_true hp⟩
  · refine .inr ⟨key, hgoes, ?_⟩
    obtain ⟨st, hst⟩ := Option.isSome_iff_exists.mp hstored
    rw [isSome_stored?_withFound hs hf]
    by_cases horigin : st.origin = some t
    · cases hsees : f.sees key with
      | true => exact .inl (.inl rfl)
      | false => exact .inr (.inr ⟨st, hst, horigin, hsees⟩)
    · exact .inl (.inr ⟨st, hst, horigin⟩)
  · exact .inr ⟨key, hgoes, .inr (.inl hgone)⟩

/-- Of the other blocks, a completed scan loses those whose declarations it drops. -/
theorem Covers.installScan (h : cat.Covers gone p) (hp : p.origin ≠ t) :
    (cat.installScan t previous f).1.Covers (fun key => gone key ∨ cat.Drops t f key) p := by
  rw [installScan_eq]
  exact (h.withFound hs hf hp).retryWaiting (hs.withFound t previous f) _

/-- A completed scan covers what it has found. -/
theorem covers_installScan (gone : DeclKey → Prop) (hblock : block ∈ f.blocks) :
    (cat.installScan t previous f).1.Covers gone (.ofBlock t block) := by
  have hfound : (cat.withFound t previous f).Covers gone (.ofBlock t block) := by
    rcases List.mem_append.mp hblock with hblock | hblock
    · obtain ⟨p, hp, rfl⟩ := List.mem_map.mp hblock
      have hmeet := hf.meet_of_mem (Findings.mem_assigned.mp hp)
      refine .inr ⟨.of p.1 p.2.name, WaitingBlock.goesTo_iff.mpr ⟨hmeet, rfl⟩, .inl ?_⟩
      rw [isSome_stored?_withFound hs hf]
      exact .inl (Findings.sees_iff.mpr ⟨p, hp, rfl⟩)
    · obtain ⟨p, hp, rfl⟩ := List.mem_map.mp hblock
      obtain ⟨block, -, rfl⟩ := hf.exists_of_mem_waiting hp
      exact .inl (List.mem_append_right _ hp)
  rw [installScan_eq]
  exact hfound.retryWaiting (hs.withFound t previous f) _

end

end Catalogue

theorem Findings.Gathers.step {access : FileAccess} {b : Bindings} {blocks : List BlockSource}
    {s s' : Scan} (h : s.found.Gathers s.defaultType b blocks)
    (hstep : s.step access b = .running s') :
    ∃ blocks', s'.found.Gathers s'.defaultType b blocks' := by
  have hsteps := Scan.steps_step access b s
  rw [hstep] at hsteps
  cases hsteps with
  | @record file more _ => exact ⟨blocks ++ more, h.addBlocks file more⟩
  | _ => exact ⟨blocks, h⟩

/-! ## Systems -/

namespace System

variable {s : System} {e : Event} {es : List Event} {t t' : DeclType} {f : Findings}
  {key : DeclKey}

/-- Whether a binding or a declaration is taken back. -/
def Event.Retracts : Event → Prop
  | .unbind .. => True
  | .remove _ _ => True
  | _ => False

/-! ### What is installed -/

/-- What an event installs: the findings of the scan that it completes, with its type, unless the
scan has been superseded. -/
def installs? (s : System) : Event → Option (DeclType × Findings)
  | .advance index access =>
    s.scans[index]?.bind fun r =>
      match r.scan.step access s.catalogue.bindings with
      | .finished f => if s.catalogue.isCurrent r then some (r.scan.defaultType, f) else none
      | _ => none
  | _ => none

/-- What a run installs, in order. -/
def installs (s : System) : List Event → List (DeclType × Findings)
  | [] => []
  | e :: es => (s.installs? e).toList ++ (s.perform e).installs es

/-- What the last installed scan of a type has found. -/
def lastFound? (s : System) (es : List Event) (t : DeclType) : Option Findings :=
  ((s.installs es).filter (·.1 = t)).getLast?.map Prod.snd

theorem installs_concat (s : System) (es : List Event) (e : Event) :
    s.installs (es ++ [e]) = s.installs es ++ ((es.foldl perform s).installs? e).toList := by
  induction es generalizing s with
  | nil => exact List.append_nil _
  | cons e' es ih =>
    show (s.installs? e').toList ++ (s.perform e').installs (es ++ [e]) = _
    rw [ih, ← List.append_assoc]
    rfl

theorem lastFound?_concat_of_none (h : (es.foldl perform s).installs? e = none) (t : DeclType) :
    s.lastFound? (es ++ [e]) t = s.lastFound? es t := by
  unfold lastFound?
  rw [installs_concat, h, Option.toList_none, List.append_nil]

theorem lastFound?_concat_of_some (h : (es.foldl perform s).installs? e = some (t', f))
    (t : DeclType) :
    s.lastFound? (es ++ [e]) t = if t' = t then some f else s.lastFound? es t := by
  unfold lastFound?
  rw [installs_concat, h, Option.toList_some, List.filter_append]
  by_cases ht : t' = t
  · simp [ht]
  · simp [ht]

theorem installs?_eq_some (h : s.installs? e = some (t, f)) :
    ∃ r ∈ s.scans, r.scan.defaultType = t ∧ r.scan.found = f ∧
      (s.perform e).catalogue = (s.catalogue.installScan t r.previous f).1 := by
  cases e with
  | advance index access =>
    obtain ⟨r, hr, hinstalls⟩ := Option.bind_eq_some_iff.mp h
    split at hinstalls
    · rename_i found hstep
      split at hinstalls
      · rename_i hcurrent
        obtain ⟨rfl, rfl⟩ := Prod.mk.inj (Option.some.inj hinstalls)
        refine ⟨r, List.mem_of_getElem? hr, rfl, Scan.found_of_finished hstep, ?_⟩
        show (s.advance index access).catalogue = _
        rw [System.advance_eq]
        rw [hr]
        dsimp only
        rw [hstep]
        exact congrArg Prod.fst (Catalogue.completeScan_of_current hcurrent found)
      · simp at hinstalls
    · simp at hinstalls
  | _ => simp [installs?] at h

/-- A step that installs nothing leaves the blocks and the declarations alone. -/
theorem agrees_advance {index : Nat} {access : FileAccess}
    (h : s.installs? (.advance index access) = none) :
    s.catalogue.Agrees (s.advance index access).catalogue := by
  unfold installs? at h
  rw [System.advance_eq]
  dsimp only at h
  cases hr : s.scans[index]? with
  | none => exact .refl _
  | some r =>
    rw [hr, Option.bind_some] at h
    dsimp only
    cases hstep : r.scan.step access s.catalogue.bindings with
    | running scan => exact .refl _
    | finished found =>
      rw [hstep] at h
      dsimp only at h
      split at h
      · simp at h
      · rename_i hcurrent
        dsimp only
        rw [Catalogue.completeScan_of_superseded (Bool.eq_false_iff.mpr hcurrent) found]
        exact .refl _
    | crashed => exact Catalogue.agrees_workerExited _ _ _

/-! ### What is covered -/

variable {gone : DeclKey → Prop} {p : WaitingBlock}

theorem covers_bind (h : s.catalogue.Covers gone p) (keyword : String) (c : Creator) :
    (s.bind keyword c).catalogue.Covers gone p := by
  unfold System.bind
  split
  · exact h
  · rename_i hb
    exact h.of_keeps (Bindings.grows_bindKeyword hb) rfl fun _ hkey => hkey

theorem covers_retry (h : s.catalogue.Covers gone p) (hs : s.Sound) :
    s.retry.catalogue.Covers gone p := by
  rw [System.retry_eq]
  split
  · exact h
  · exact h.retryWaiting hs.catalogue ∅

theorem covers_findOrCreate (h : s.catalogue.Covers gone p) (hs : s.Sound) (t : DeclType)
    (name : String) : (s.findOrCreate t name).catalogue.Covers gone p := by
  unfold System.findOrCreate
  split
  · exact h
  · rename_i hf
    rcases Catalogue.findOrCreate_cases hf with rfl | ⟨c, -, rfl⟩
    · exact h
    · refine h.of_keeps (.refl _) rfl fun key hkey => ?_
      dsimp only
      rw [hs.catalogue.store.stored?_insertNew]
      split
      · rfl
      · exact hkey

theorem covers_setBlock (h : s.catalogue.Covers gone p) (handle : Handle) (block : BlockSource) :
    (s.setBlock handle block).catalogue.Covers gone p :=
  h.of_keeps (.refl _) rfl fun key hkey => by
    rw [← Store.isSome_stored?_setBlock s.catalogue.store handle block key] at hkey
    exact hkey

/-- An event that installs nothing and takes nothing back leaves covered what was. -/
theorem covers_perform (h : s.catalogue.Covers gone p) (hs : s.Sound) (he : ¬e.Retracts)
    (hnone : s.installs? e = none) : (s.perform e).catalogue.Covers gone p := by
  cases e with
  | bind keyword c => exact covers_bind h keyword c
  | retry => exact covers_retry h hs
  | unbind keyword order => exact absurd trivial he
  | addFolder t folder extension =>
    exact h.of_agrees (Catalogue.agrees_addFolder s.catalogue t folder extension)
  | rescan => exact h.of_agrees s.catalogue.agrees_rescan
  | findOrCreate t name => exact covers_findOrCreate h hs t name
  | remove t name => exact absurd trivial he
  | setBlock handle block => exact covers_setBlock h handle block
  | advance index access => exact h.of_agrees (agrees_advance hnone)
  | leave index =>
    show (s.leave index).catalogue.Covers gone p
    unfold System.leave
    split
    · exact h
    · exact h.of_agrees (Catalogue.agrees_workerExited _ _ _)
  | await t =>
    exact h.of_agrees
      (sameButTickets_become fun cat hcat => Catalogue.sameButTickets_awaitType hcat).agrees
  | awaitAll =>
    exact h.of_agrees
      (sameButTickets_become fun cat hcat => Catalogue.sameButTickets_joinCurrent hcat).agrees
  | joinEvery =>
    exact h.of_agrees
      (sameButTickets_become fun cat hcat => Catalogue.sameButTickets_joinEvery hcat).agrees
  | connect t watcher => exact h.of_agrees ⟨rfl, rfl, rfl⟩
  | disconnect t id => exact h.of_agrees ⟨rfl, rfl, rfl⟩

/-! ### What scans have found -/

theorem grows_perform (s : System) (he : ¬e.Retracts) :
    s.catalogue.bindings.Grows (s.perform e).catalogue.bindings := by
  rw [bindings_perform]
  exact e.grows_rebind (fun keyword order hunbind => he (hunbind ▸ trivial)) _

/-- All scans have found blocks that were sorted by bindings that have grown since. -/
def Gathering (s : System) : Prop :=
  ∀ r ∈ s.scans, ∃ blocks, r.scan.found.Gathers r.scan.defaultType s.catalogue.bindings blocks

theorem mem_scans_advance {index : Nat} {access : FileAccess} {r' : StartedScan}
    (h : r' ∈ (s.advance index access).scans) :
    r' ∈ s.scans ∨ ∃ r ∈ s.scans, ∃ scan,
      r.scan.step access s.catalogue.bindings = .running scan ∧ r' = { r with scan } := by
  rw [System.advance_eq] at h
  cases hr : s.scans[index]? with
  | none =>
    rw [hr] at h
    exact .inl h
  | some r =>
    rw [hr] at h
    dsimp only at h
    cases hstep : r.scan.step access s.catalogue.bindings with
    | running scan =>
      rw [hstep] at h
      rcases List.mem_or_eq_of_mem_set h with h | h
      · exact .inl h
      · exact .inr ⟨r, List.mem_of_getElem? hr, scan, hstep, h⟩
    | finished found =>
      rw [hstep] at h
      exact .inl (List.mem_of_mem_eraseIdx h)
    | crashed =>
      rw [hstep] at h
      exact .inl (List.mem_of_mem_eraseIdx h)

/-- A scan that is under way has been so before, has just been started or has taken a step. -/
theorem mem_scans_perform {r' : StartedScan} (h : r' ∈ (s.perform e).scans) :
    r' ∈ s.scans ∨ (∃ cat t, r' = (Catalogue.launch cat t).1) ∨
      ∃ r ∈ s.scans, ∃ index access scan, e = .advance index access ∧
        r.scan.step access s.catalogue.bindings = .running scan ∧ r' = { r with scan } := by
  cases e with
  | addFolder t folder extension =>
    rcases List.mem_append.mp h with h | h
    · exact .inl h
    · exact .inr (.inl ⟨_, t, List.mem_singleton.mp h⟩)
  | rescan =>
    rcases List.mem_append.mp h with h | h
    · exact .inl h
    · obtain ⟨cat, t, -, hr'⟩ := Catalogue.launched_of_mem_rescan h
      exact .inr (.inl ⟨cat, t, hr'⟩)
  | advance index access =>
    rcases mem_scans_advance h with h | ⟨r, hr, scan, hstep, hr'⟩
    · exact .inl h
    · exact .inr (.inr ⟨r, hr, index, access, scan, rfl, hstep, hr'⟩)
  | bind keyword c =>
    have h : r' ∈ (s.bind keyword c).scans := h
    unfold System.bind at h
    split at h <;> exact .inl h
  | retry =>
    have h : r' ∈ s.retry.scans := h
    rw [System.retry_eq] at h
    split at h <;> exact .inl h
  | unbind keyword order =>
    have h : r' ∈ (s.unbind keyword order).scans := h
    unfold System.unbind at h
    split at h <;> exact .inl h
  | findOrCreate t name =>
    have h : r' ∈ (s.findOrCreate t name).scans := h
    unfold System.findOrCreate at h
    split at h <;> exact .inl h
  | leave index =>
    have h : r' ∈ (s.leave index).scans := h
    unfold System.leave at h
    split at h <;> exact .inl h
  | _ => exact .inl h

theorem Gathering.perform (h : s.Gathering) (he : ¬e.Retracts) : (s.perform e).Gathering := by
  have hgrows := s.grows_perform he
  intro r' hr'
  rcases mem_scans_perform hr' with hr | ⟨cat, t, rfl⟩ | ⟨r, hr, _, _, scan, -, hstep, rfl⟩
  · obtain ⟨blocks, hblocks⟩ := h r' hr
    exact ⟨blocks, hblocks.grow hgrows⟩
  · exact ⟨[], .nothing _⟩
  · obtain ⟨blocks, hblocks⟩ := h r hr
    obtain ⟨blocks', hblocks'⟩ := hblocks.step hstep
    exact ⟨blocks', hblocks'.grow hgrows⟩

/-! ### Dropped declarations -/

/-- Along a run, a scan of another type drops what is stored under the key, and no scan of `t` is
installed any more. -/
def Dropped (s : System) (es : List Event) (t : DeclType) (key : DeclKey) : Prop :=
  ∃ before e after t' f, es = before ++ e :: after ∧
    let s' := before.foldl perform s
    s'.installs? e = some (t', f) ∧ t' ≠ t ∧ s'.catalogue.Drops t' f key ∧
      ∀ p ∈ (s'.perform e).installs after, p.1 ≠ t

theorem Dropped.concat (h : s.Dropped es t key)
    (hinstalls : ∀ p, (es.foldl perform s).installs? e = some p → p.1 ≠ t) :
    s.Dropped (es ++ [e]) t key := by
  obtain ⟨before, e', after, t', f, rfl, hdrop, hne, hdrops, hafter⟩ := h
  refine ⟨before, e', after ++ [e], t', f, by simp, hdrop, hne, hdrops, ?_⟩
  rw [List.foldl_append, List.foldl_cons] at hinstalls
  intro p hp
  rw [installs_concat] at hp
  rcases List.mem_append.mp hp with hp | hp
  · exact hafter p hp
  · exact hinstalls p (Option.mem_toList.mp hp)

theorem dropped_concat (hinstalls : (es.foldl perform s).installs? e = some (t', f)) (hne : t' ≠ t)
    (hdrops : (es.foldl perform s).catalogue.Drops t' f key) : s.Dropped (es ++ [e]) t key :=
  ⟨es, e, [], t', f, rfl, hinstalls, hne, hdrops, fun _ hp => absurd hp List.not_mem_nil⟩

theorem Gathering.run (h : s.Gathering) (hes : ∀ e ∈ es, ¬e.Retracts) :
    (es.foldl System.perform s).Gathering :=
  List.foldlRecOn (motive := Gathering) es _ h fun _ h e he => h.perform (hes e he)

/-- What the last installed scan of a type has found is covered, but for what has been dropped
since. -/
theorem covers_run (hs : s.Sound) (hscans : s.Gathering) (hes : ∀ e ∈ es, ¬e.Retracts)
    (hlast : s.lastFound? es t = some f) {block : BlockSource} (hblock : block ∈ f.blocks) :
    (es.foldl perform s).catalogue.Covers (s.Dropped es t) (.ofBlock t block) := by
  induction es using List.reverseRecOn generalizing f with
  | nil => simp [lastFound?, installs] at hlast
  | append_singleton es e ih =>
    have he := hes e (by simp)
    have hes : ∀ e ∈ es, ¬e.Retracts := fun e he => hes e (List.mem_append_left _ he)
    have hsound := hs.run es
    rw [List.foldl_append, List.foldl_cons, List.foldl_nil]
    cases hinstalls : (es.foldl perform s).installs? e with
    | none =>
      rw [lastFound?_concat_of_none hinstalls] at hlast
      have hcovers := (ih hes hlast hblock).mono fun key hdropped =>
        hdropped.concat (e := e) fun p hp => by simp [hinstalls] at hp
      exact covers_perform hcovers hsound he hinstalls
    | some p =>
      obtain ⟨t', f'⟩ := p
      rw [lastFound?_concat_of_some hinstalls] at hlast
      obtain ⟨r, hr, rfl, rfl, hcatalogue⟩ := installs?_eq_some hinstalls
      obtain ⟨blocks, hgathers⟩ := hscans.run hes r hr
      rw [hcatalogue]
      -- A scan of the type covers its blocks anew; one of another type may drop what was covered.
      by_cases ht : r.scan.defaultType = t
      · rw [if_pos ht] at hlast
        obtain rfl := Option.some.inj hlast
        exact ht ▸ Catalogue.covers_installScan hsound.catalogue hgathers _ hblock
      · rw [if_neg ht] at hlast
        refine ((ih hes hlast hblock).installScan hsound.catalogue hgathers
          (Ne.symm ht)).mono fun key hgone => ?_
        rcases hgone with hdropped | hdrops
        · refine hdropped.concat fun p hp => ?_
          rw [hinstalls] at hp
          obtain rfl := Option.some.inj hp
          exact ht
        · exact dropped_concat hinstalls ht hdrops

/-- Keywords are bound, folders are added and scanned, files change and declarations are made on
demand, but nothing is taken back and no try is owed. A block that the last installed scan of its
type has found and that the bindings give a type now is stored under its key, or since then a scan
of another type has dropped the declaration: it was of the origin of that scan, which has not found
its key. -/
theorem stored_or_dropped (limits : ScanLimits) {block : BlockSource}
    (hs : s = es.foldl perform { catalogue := { limits } }) (hes : ∀ e ∈ es, ¬e.Retracts)
    (hquiet : s.owed = 0) (hlast : lastFound? { catalogue := { limits } } es t = some f)
    (hblock : block ∈ f.blocks)
    (hassigned : s.catalogue.bindings.assign block.keyword t = .assigned t') :
    (s.catalogue.store.stored? (.of t' block.name)).isSome ∨
      Dropped { catalogue := { limits } } es t (.of t' block.name) := by
  subst hs
  have hsound := (Reachable.start limits).sound
  have hcovers := covers_run hsound (fun r hr => absurd hr List.not_mem_nil) hes hlast hblock
  rw [Bindings.assign_eq] at hassigned
  split at hassigned
  · rename_i hmeet
    obtain rfl := Assignment.assigned.inj hassigned
    rcases hcovers with hwaits | ⟨key, hgoes, hkey⟩
    · have hunmet := (hsound.run es).settled hquiet _ hwaits
      rw [WaitingBlock.need_ofBlock, hmeet] at hunmet
      simp at hunmet
    · obtain ⟨htype, hname⟩ := WaitingBlock.goesTo_iff.mp hgoes
      rw [WaitingBlock.need_ofBlock, hmeet, Option.some.injEq] at htype
      rw [htype, DeclKey.of, show Text.foldCase block.name = key.name from hname]
      exact hkey
  · simp at hassigned

/-- Both files have a block that waits for its keyword. Once that is bound the declaration is of the
later origin, and goes when its file is empty. -/
theorem stored_or_dropped_moss :
    let t : DeclType := ⟨"material"⟩
    let u : DeclType := ⟨"skin"⟩
    let material := FileAccess.ofTexts [("m/a.mtr", "Shader moss { first } stone {}")]
    let skin := FileAccess.ofTexts [("s/b.skin", "shader Moss { second }")]
    let es : List Event :=
      [.bind "material" (.plain t), .retry, .addFolder t "m" "mtr", .addFolder u "s" "skin"] ++
        List.replicate 4 (Event.advance 0 material) ++ List.replicate 4 (Event.advance 0 skin) ++
        [Event.bind "shader" (.plain t), Event.retry, Event.addFolder u "s" "skin"] ++
        List.replicate 2 (Event.advance 0 (.ofTexts []))
    let s := es.foldl perform {}
    let first : BlockSource :=
      { keyword := "Shader", name := "moss", contents := " first ", raw := "Shader moss { first }"
        label := "base", file := some ⟨"m/a.mtr", ⟨"/"⟩, "base", ⟨30, 0⟩⟩ }
    ∃ f, (∀ e ∈ es, ¬e.Retracts) ∧ s.owed = 0 ∧ lastFound? {} es t = some f ∧
      first ∈ f.blocks ∧ s.catalogue.bindings.assign first.keyword t = .assigned t ∧
      s.catalogue.store.stored? (.of t first.name) = none ∧
      Dropped {} es t (.of t first.name) := by
  intro t u material skin es s first
  have hes : ∀ e ∈ es, ¬e.Retracts := by
    simp [es, Event.Retracts]
  have hquiet : s.owed = 0 := by decide +kernel
  have hblocks : ((lastFound? {} es t).map Findings.blocks).any (first ∈ ·) := by decide +kernel
  have hassigned : s.catalogue.bindings.assign first.keyword t = .assigned t := by decide +kernel
  have hgone : s.catalogue.store.stored? (.of t first.name) = none := by decide +kernel
  obtain ⟨blocks, hfound, hfirst⟩ := (Option.any_eq_true _ _).mp hblocks
  obtain ⟨f, hlast, rfl⟩ := Option.map_eq_some_iff.mp hfound
  have hfirst : first ∈ f.blocks := of_decide_eq_true hfirst
  have hdropped := stored_or_dropped {} (rfl : s = _) hes hquiet hlast hfirst hassigned
  rw [hgone] at hdropped
  exact ⟨f, hes, hquiet, hlast, hfirst, hassigned, hgone, hdropped.resolve_left (by simp)⟩

/-- Two files of different default types define one material, and the second one is emptied and
scanned again. The first file still defines the material, its last scan has found it, and it is not
stored. -/
theorem lost_declaration :
    let t : DeclType := ⟨"material"⟩
    let u : DeclType := ⟨"skin"⟩
    let path : SearchPath := ⟨[.ofPath ⟨"/base"⟩]⟩
    let text : FileData := ⟨"material x {}".toUTF8.toList, 0⟩
    let tree := (FileTree.write {} ⟨"/base/m/a.mtr"⟩ text).write ⟨"/base/s/b.skin"⟩ text
    let later := tree.write ⟨"/base/s/b.skin"⟩ ⟨[], 1⟩
    let es : List Event :=
      [.bind "material" (.plain t), .retry, .addFolder t "m" "mtr"] ++
        List.replicate 4 (Event.advance 0 (path.access tree)) ++ [Event.addFolder u "s" "skin"] ++
        List.replicate 4 (Event.advance 0 (path.access tree)) ++ [Event.addFolder u "s" "skin"] ++
        List.replicate 4 (Event.advance 0 (path.access later))
    let s := es.foldl perform {}
    (∀ e ∈ es, ¬e.Retracts) ∧ s.owed = 0 ∧ s.scans = [] ∧
      ∃ f, lastFound? {} es t = some f ∧ ∃ x ∈ f.blocks, x.name = "x" ∧
        s.catalogue.bindings.assign x.keyword t = .assigned t ∧
        s.catalogue.store.stored? (.of t x.name) = none := by
  intro t u path text tree later es s
  have hes : ∀ e ∈ es, ¬e.Retracts := by
    simp [es, Event.Retracts]
  have hquiet : s.owed = 0 := by decide +kernel
  have hended : s.scans = [] := List.isEmpty_iff.mp (by decide +kernel)
  have hfound : ((lastFound? {} es t).map Findings.blocks).any fun blocks =>
      blocks.any fun x => x.name = "x" ∧
        s.catalogue.bindings.assign x.keyword t = .assigned t ∧
        s.catalogue.store.stored? (.of t x.name) = none := by
    decide +kernel
  obtain ⟨blocks, hfound, hblocks⟩ := (Option.any_eq_true _ _).mp hfound
  obtain ⟨f, hlast, rfl⟩ := Option.map_eq_some_iff.mp hfound
  obtain ⟨x, hx, hlost⟩ := List.any_eq_true.mp hblocks
  exact ⟨hes, hquiet, hended, f, hlast, x, hx, of_decide_eq_true hlost⟩

end System

end AssetDecl
