import AssetDecl.Proofs.RepeatedScan
import AssetDecl.Proofs.VisitedBlocks

/-!
# Changed types

Whoever installs blocks tells the types that changed. These are exactly the types of which a
declaration was removed, was made or was given a new source, and under the keys of every other type
all is as it was (`Store.Tracks`). The callbacks of the types that changed are then run, in
ascending order of types, with the whole effect in place (`System.reloads_announced`).
-/

namespace AssetDecl

/-! ## Changes under a key -/

/-- The declaration under a key was removed, or one was made there, or its source was replaced. -/
inductive Stored.Changed : Option Stored → Option Stored → Prop where
  | removed {old : Stored} {new : Option Stored}
    (h : ∀ st, new = some st → st.handle ≠ old.handle) : Changed (some old) new
  | made {old : Option Stored} {new : Stored}
    (h : ∀ st, old = some st → st.handle ≠ new.handle) : Changed old (some new)
  | replaced {old new : Stored} (hhandle : new.handle = old.handle)
    (h : old.declaration.revision < new.declaration.revision) : Changed (some old) (some new)

theorem Stored.Changed.ne {old new : Option Stored} (h : Changed old new) : new ≠ old := by
  cases h with
  | removed h => exact fun heq => h _ heq rfl
  | made h => exact fun heq => h _ heq.symm rfl
  | replaced _ h => exact fun heq => absurd h (Option.some.inj heq ▸ lt_irrefl _)

/-- Installing a block changes what is under its key, and undoes no change. -/
theorem Stored.Changed.renew {old new : Option Stored} (h : new = old ∨ Changed old new)
    (c : Creator) {fresh : Handle} (hfresh : ∀ st, old = some st → st.handle < fresh)
    (block : BlockSource) (origin : DeclType) :
    Changed old (some (.renew c fresh block origin new)) := by
  cases new with
  | none =>
    exact .made fun st hold => (hfresh st hold).ne
  | some st =>
    rcases h with rfl | h
    · exact .replaced rfl (Nat.lt_succ_self _)
    · cases h with
      | removed h => exact .removed fun st' hst' => Option.some.inj hst' ▸ h st rfl
      | made h => exact .made h
      | replaced hhandle h => exact .replaced hhandle (h.trans (Nat.lt_succ_self _))

namespace Store

variable {old new s s' : Store} {changed : TypeSet} {t : DeclType} {b : Bindings}

/-- A declaration of the type was removed from the store, or made, or its source replaced. -/
def Touched (old new : Store) (t : DeclType) : Prop :=
  ∃ name, Stored.Changed (old.stored? ⟨t, name⟩) (new.stored? ⟨t, name⟩)

/-- The types that changed from one store to another. Handles are not used again. -/
structure Tracks (old new : Store) (changed : TypeSet) : Prop where
  kept : ∀ key, new.stored? key = old.stored? key ∨
    key.declType ∈ changed ∧ Stored.Changed (old.stored? key) (new.stored? key)
  touched : ∀ t ∈ changed, Touched old new t
  grown : old.objects.size ≤ new.objects.size

theorem Tracks.mem_iff (h : old.Tracks new changed) : t ∈ changed ↔ Touched old new t := by
  constructor
  · exact h.touched t
  · rintro ⟨name, hchanged⟩
    rcases h.kept ⟨t, name⟩ with hkept | ⟨hmem, -⟩
    · exact absurd hkept hchanged.ne
    · exact hmem

theorem Tracks.stored?_eq (h : old.Tracks new changed) {key : DeclKey}
    (ht : key.declType ∉ changed) : new.stored? key = old.stored? key :=
  (h.kept key).resolve_right fun hchanged => ht hchanged.1

theorem tracks_self (s : Store) : s.Tracks s ∅ :=
  ⟨fun _ => .inl rfl, fun _ ht => absurd ht Std.ExtTreeSet.not_mem_empty, le_rfl⟩

/-! ## What vanishes -/

theorem mem_vanishedTypes {origin : DeclType} {seen : DeclKey → Bool} :
    t ∈ s.vanishedTypes origin seen ↔
      ∃ name entry, s.entries[DeclKey.mk t name]? = some entry ∧
        isVanished origin seen ⟨t, name⟩ entry := by
  unfold vanishedTypes
  simp only [List.mem_map, Std.ExtTreeMap.mem_keys, Std.ExtTreeMap.mem_iff_isSome_getElem?,
    Std.ExtTreeMap.getElem?_filter', Option.isSome_iff_exists, Option.filter_eq_some_iff]
  constructor
  · rintro ⟨⟨t, name⟩, ⟨entry, hentry, hvanished⟩, rfl⟩
    exact ⟨name, entry, hentry, hvanished⟩
  · rintro ⟨name, entry, hentry, hvanished⟩
    exact ⟨⟨t, name⟩, ⟨entry, hentry, hvanished⟩, rfl⟩

theorem Sound.tracks_dropVanished (h : s.Sound) (origin : DeclType) (seen : DeclKey → Bool) :
    s.Tracks (s.dropVanished origin seen) (.ofList (s.vanishedTypes origin seen)) := by
  have hremoved : ∀ {key entry}, s.entries[key]? = some entry → isVanished origin seen key entry →
      Stored.Changed (s.stored? key) ((s.dropVanished origin seen).stored? key) := by
    intro key entry hentry hvanished
    obtain ⟨d, hd⟩ := h.declaration_of_entry hentry
    have hgone : (s.dropVanished origin seen).entries[key]? = none := by
      rw [entries_dropVanished, hentry, Option.filter_some, hvanished]
      rfl
    rw [stored?_of_entry hentry, hd, stored?_of_no_entry hgone]
    exact .removed fun _ hst => absurd hst (by simp)
  refine ⟨fun key => ?_, fun t ht => ?_, le_rfl⟩
  · cases hentry : s.entries[key]? with
    | none =>
      rw [stored?_dropVanished, stored?_of_no_entry hentry]
      exact .inl rfl
    | some entry =>
      cases hvanished : isVanished origin seen key entry with
      | true =>
        refine .inr ⟨?_, hremoved hentry hvanished⟩
        rw [Std.ExtTreeSet.mem_ofList, List.contains_iff_mem, mem_vanishedTypes]
        exact ⟨key.name, entry, hentry, hvanished⟩
      | false =>
        have hkept : (s.dropVanished origin seen).entries[key]? = some entry := by
          rw [entries_dropVanished, hentry, Option.filter_some, hvanished]
          rfl
        rw [stored?_of_entry hentry, stored?_of_entry hkept]
        exact .inl rfl
  · rw [Std.ExtTreeSet.mem_ofList, List.contains_iff_mem, mem_vanishedTypes] at ht
    obtain ⟨name, entry, hentry, hvanished⟩ := ht
    exact ⟨name, hremoved hentry hvanished⟩

/-! ## What is installed -/

theorem Sound.lt_of_stored (h : s.Sound) {key : DeclKey} {st : Stored}
    (hst : s.stored? key = some st) : st.handle < s.objects.size := by
  obtain ⟨entry, hentry, hst⟩ := Option.bind_eq_some_iff.1 hst
  obtain ⟨d, -, rfl⟩ := Option.map_eq_some_iff.1 hst
  exact h.lt_of_entry hentry

theorem size_install {block : BlockSource} {origin : DeclType}
    (h : s.install b t block origin = some s') : s.objects.size ≤ s'.objects.size := by
  unfold install at h
  split at h
  · simp at h
  · dsimp only at h
    split at h
    · obtain rfl := Option.some.inj h
      exact Array.size_modify.ge
    · obtain rfl := Option.some.inj h
      exact (Array.size_push _).ge.trans' (Nat.le_succ _)

theorem Tracks.install (h : old.Tracks s changed) (hold : old.Sound) (hs : s.Sound)
    {block : BlockSource} {origin : DeclType} (hinstall : s.install b t block origin = some s') :
    old.Tracks s' (changed.insert t) := by
  obtain ⟨c, hc⟩ := Option.isSome_iff_exists.1
    ((install_isSome s b t block origin).symm.trans (Option.isSome_iff_exists.2 ⟨s', hinstall⟩))
  obtain ⟨s'', hs'', -, hstored⟩ := hs.install hc block origin
  obtain rfl := Option.some.inj (hs''.symm.trans hinstall)
  have hfresh : ∀ key st, old.stored? key = some st → st.handle < s.objects.size :=
    fun key st hst => (hold.lt_of_stored hst).trans_le h.grown
  have hchanged : Stored.Changed (old.stored? (.of t block.name))
      (s''.stored? (.of t block.name)) := by
    rw [hstored, if_pos rfl]
    exact .renew ((h.kept _).imp_right And.right) c (hfresh _) block origin
  have hother : ∀ key, DeclKey.of t block.name ≠ key → s''.stored? key = s.stored? key :=
    fun key hkey => (hstored key).trans (if_neg hkey)
  refine ⟨fun key => ?_, fun t' ht' => ?_, h.grown.trans (size_install hinstall)⟩
  · by_cases hkey : DeclKey.of t block.name = key
    · subst hkey
      exact .inr ⟨Std.ExtTreeSet.mem_insert_self, hchanged⟩
    · rw [hother key hkey]
      exact (h.kept key).imp_right fun hkept =>
        ⟨Std.ExtTreeSet.mem_insert.2 (.inr hkept.1), hkept.2⟩
  · rcases Std.ExtTreeSet.mem_insert.1 ht' with ht' | ht'
    · rw [DeclType.compare_eq_eq] at ht'
      exact ht' ▸ ⟨_, hchanged⟩
    · obtain ⟨name, hname⟩ := h.touched t' ht'
      by_cases hkey : DeclKey.of t block.name = ⟨t', name⟩
      · exact ⟨name, hkey ▸ hchanged⟩
      · exact ⟨name, (hother _ hkey).symm ▸ hname⟩

end Store

/-! ## Types that are told -/

namespace Catalogue

variable {cat cat' : Catalogue} {old : Store} {b : Bindings} {t : DeclType} {changed : TypeSet}

namespace Installing

variable {i : Installing} {p : WaitingBlock}

/-- What is told agrees with the store while blocks are installed. -/
structure Tells (old : Store) (i : Installing) : Prop where
  sound : i.store.Sound
  tracks : old.Tracks i.store i.changed

theorem Tells.put (h : Tells old i) (hold : old.Sound) : Tells old (i.put b t p) := by
  refine ⟨sound_put h.sound, ?_⟩
  cases hinstall : i.store.install b t p.block p.origin with
  | none =>
    unfold Installing.put
    rw [hinstall]
    exact h.tracks
  | some s' =>
    rw [put_eq hinstall]
    exact h.tracks.install hold h.sound hinstall

theorem Tells.retry (h : Tells old i) (hold : old.Sound) : Tells old (i.retry b p) := by
  unfold Installing.retry
  split
  · exact h.put hold
  · exact ⟨h.sound, h.tracks⟩

theorem Tells.foldl_retry (h : Tells old i) (hold : old.Sound) (ps : List WaitingBlock) :
    Tells old (ps.foldl (Installing.retry b) i) :=
  List.foldlRecOn ps _ h fun _ hi _ _ => hi.retry hold

end Installing

theorem tells_installFound (h : cat.Sound) (t : DeclType) (f : Findings) :
    (cat.installFound t f).Tells cat.store :=
  List.foldlRecOn f.assigned _
    ⟨h.store.dropVanished t f.sees, h.store.tracks_dropVanished t f.sees⟩
    fun _ hi _ _ => hi.put h.store

theorem tracks_retryWaiting (hold : old.Sound)
    (h : Installing.Tells old { store := cat.store, changed }) :
    old.Tracks (cat.retryWaiting changed).1.store (cat.retryWaiting changed).2 :=
  (h.foldl_retry hold cat.waiting).tracks

/-- A completed scan tells the types that it has changed. -/
theorem tracks_completeScan (h : cat.Sound) (r : StartedScan) (f : Findings) :
    cat.store.Tracks (cat.completeScan r f).1.store (cat.completeScan r f).2 := by
  unfold completeScan
  split
  · rw [installScan_eq]
    have htells := tells_installFound h r.scan.defaultType f
    exact tracks_retryWaiting h.store ⟨htells.sound, htells.tracks⟩
  · exact Store.tracks_self _

/-- Whoever binds a keyword tells the types that have changed by it. -/
theorem tracks_bindType (h : cat.Sound) {keyword : String} {c : Creator}
    (hbind : cat.bindType keyword c = .ok (cat', changed)) :
    cat.store.Tracks cat'.store changed := by
  unfold bindType at hbind
  split at hbind
  · simp at hbind
  · rename_i bindings _
    have htracks : cat.store.Tracks ({ cat with bindings }.retryWaiting ∅).1.store
        ({ cat with bindings }.retryWaiting ∅).2 :=
      tracks_retryWaiting h.store ⟨h.store, Store.tracks_self _⟩
    rw [Except.ok.inj hbind] at htracks
    exact htracks

/-! ## Callbacks -/

theorem SameButTickets.fst_report (h : cat.SameButTickets cat') (w : Watcher) :
    (cat'.report w).1 = (cat.report w).1 := by
  have hcount : ∀ cat : Catalogue, ∀ t t',
      ((cat.awaitType t).getD cat).count t' = cat.count t' := by
    intro cat t t'
    cases hawait : cat.awaitType t with
    | none => rfl
    | some cat' =>
      obtain ⟨_, _, rfl⟩ := sameButTickets_awaitType hawait
      rfl
  obtain ⟨_, _, rfl⟩ := h
  unfold report
  cases w.counts with
  | none => rfl
  | some t =>
    dsimp only
    rw [hcount, hcount]
    rfl

theorem flatMap_filter_of_nil {α β : Type} {p : α → Bool} {f : α → List β}
    (h : ∀ a, ¬p a → f a = []) (as : List α) : (as.filter p).flatMap f = as.flatMap f := by
  induction as with
  | nil => rfl
  | cons a as ih =>
    rw [List.filter_cons, List.flatMap_cons, ← ih]
    split
    · rfl
    · rename_i ha
      rw [h a ha, List.nil_append]

/-- What is told in turn by catalogues that differ in their tickets is told by any one of them. -/
theorem SameButTickets.fst_foldl {α : Type} (tell : Catalogue → α → List String × Catalogue)
    (htell : ∀ {cat' : Catalogue}, cat.SameButTickets cat' → ∀ a,
      (tell cat' a).1 = (tell cat a).1 ∧ cat'.SameButTickets (tell cat' a).2)
    (h : cat.SameButTickets cat') (as : List α) (reports : List String) :
    (as.foldl (fun (reports, cat) a =>
      let (more, cat) := tell cat a
      (reports ++ more, cat)) (reports, cat')).1 =
        reports ++ as.flatMap fun a => (tell cat a).1 := by
  induction as generalizing cat' reports with
  | nil => exact (List.append_nil reports).symm
  | cons a as ih =>
    obtain ⟨htold, hsame⟩ := htell h a
    rw [List.foldl_cons, ih (h.trans hsame), htold, List.flatMap_cons, List.append_assoc]

theorem SameButTickets.fst_reportAll (h : cat.SameButTickets cat') (ws : List Watcher) :
    (cat'.reportAll ws).1 = ws.map fun w => (cat.report w).1 := by
  have hrun := h.fst_foldl (fun cat w => ([(cat.report w).1], (cat.report w).2))
    (fun hsame w => ⟨congrArg ([·]) (hsame.fst_report w), sameButTickets_report _ w⟩) ws []
  exact hrun.trans List.map_eq_flatMap.symm

theorem SameButTickets.signalOf (h : cat.SameButTickets cat') (t : DeclType) :
    cat'.signalOf t = cat.signalOf t := by
  obtain ⟨_, _, rfl⟩ := h
  rfl

theorem signalOf_of_no_signal {t : DeclType} (h : ¬cat.watchers.contains t) :
    cat.signalOf t = {} := by
  unfold Catalogue.signalOf
  rw [Std.ExtTreeMap.getElem?_eq_none_of_contains_eq_false (Bool.eq_false_iff.mpr h)]
  rfl

/-- The callbacks of the types that changed are run in turn, and each finds the same
declarations. -/
theorem emit_eq (cat : Catalogue) (changed : TypeSet) :
    (cat.emit changed).1 = changed.toList.flatMap fun t =>
      (cat.signalOf t).callbacks.map fun w => (cat.report w).1 := by
  have hnone : ∀ t, ¬cat.watchers.contains t →
      ((cat.signalOf t).callbacks.map fun w => (cat.report w).1) = [] := by
    intro t ht
    rw [signalOf_of_no_signal ht]
    rfl
  have hrun := (SameButTickets.refl cat).fst_foldl
    (fun cat t => cat.reportAll (cat.signalOf t).callbacks)
    (fun {cat'} hsame t => by
      rw [hsame.fst_reportAll, hsame.signalOf, (SameButTickets.refl cat).fst_reportAll]
      exact ⟨rfl, sameButTickets_reportAll cat' _⟩)
    (changed.toList.filter cat.watchers.contains) []
  simp only [(SameButTickets.refl cat).fst_reportAll, List.nil_append] at hrun
  exact hrun.trans (flatMap_filter_of_nil hnone _)

/-- The callbacks that are run on a catalogue `later` are those of the types of which a declaration
has been removed, made or replaced between two catalogues, each once, a type after the other in
ascending order. Of the other types nothing has changed. -/
def Announces (before after later : Catalogue) (reports : List String) : Prop :=
  ∃ types : List DeclType, types.Pairwise (·.name < ·.name) ∧
    (∀ t, t ∈ types ↔ Store.Touched before.store after.store t) ∧
    (∀ t ∉ types, ∀ name, after.store.stored? ⟨t, name⟩ = before.store.stored? ⟨t, name⟩) ∧
    reports = types.flatMap fun t =>
      (later.signalOf t).callbacks.map fun w => (later.report w).1

theorem announces_emit (h : cat.store.Tracks cat'.store changed) (later : Catalogue) :
    cat.Announces cat' later (later.emit changed).1 := by
  refine ⟨changed.toList, ?_, fun t => ?_, fun t ht name => ?_, ?_⟩
  · exact (Std.ExtTreeSet.ordered_toList (t := changed)).imp compareOfLessAndEq_eq_lt.1
  · rw [Std.ExtTreeSet.mem_toList, h.mem_iff]
  · rw [Std.ExtTreeSet.mem_toList] at ht
    exact h.stored?_eq ht
  · rw [emit_eq]

end Catalogue

namespace System

variable {s : System}

/-- The current scan of a type is completed, or a keyword is bound, at any time. Then the callbacks
of the types that it has changed are run, and no others: at once, when they find all of its effect,
or after other events. -/
theorem reloads_announced (hs : s.Reachable) :
    let before := s.catalogue
    (∀ r f, before.isCurrent r = true →
      let after := (before.completeScan r f).1
      before.Announces after after (before.endScan r (some f)).1 ∧
      ∀ later, before.Announces after later (later.emit (before.completeScan r f).2).1) ∧
    ∀ keyword c after changed, before.bindType keyword c = .ok (after, changed) →
      before.Announces after after (after.emit changed).1 ∧
      ∀ later, before.Announces after later (later.emit changed).1 := by
  intro before
  have hsound := hs.sound.catalogue
  constructor
  · intro r f _ after
    have hannounces := Catalogue.announces_emit (Catalogue.tracks_completeScan hsound r f)
    exact ⟨hannounces after, hannounces⟩
  · intro keyword c after changed hbind
    have hannounces := Catalogue.announces_emit (Catalogue.tracks_bindType hsound hbind)
    exact ⟨hannounces after, hannounces⟩

/-- A scan replaces the source of a declaration made on demand, and its other block waits until a
keyword is bound for it. -/
theorem reloads_announced_stone :
    let t : DeclType := ⟨"material"⟩
    let sound : DeclType := ⟨"sound"⟩
    let access := FileAccess.ofTexts [("materials/a.mtr", "stone \x7b\x7d Sound noise \x7b\x7d")]
    let events : List Event :=
      [.bind "Material" (.plain t), .retry, .findOrCreate t "STONE", .connect t ⟨"m", some t⟩,
        .connect sound ⟨"n", some sound⟩, .connect sound ⟨"o", none⟩,
        .addFolder t "materials" "mtr"] ++ List.replicate 3 (.advance 0 access)
    let s := events.foldl perform {}
    let s' := s.perform (.advance 0 access)
    (s.Reachable ∧ ∃ r ∈ s.scans, s.catalogue.isCurrent r = true ∧
      let after := (s.catalogue.completeScan r r.scan.found).1
      (s.catalogue.endScan r (some r.scan.found)).1 = ["m=1"] ∧
        s.catalogue.Announces after after ["m=1"]) ∧
    s'.Reachable ∧ ∃ after changed,
      s'.catalogue.bindType "SOUND" (.plain sound) = .ok (after, changed) ∧
      (after.emit changed).1 = ["n=1", "o"] ∧ s'.catalogue.Announces after after ["n=1", "o"] := by
  intro t sound access events s s'
  have hs : s.Reachable := (Reachable.start {}).run events
  have hs' : s'.Reachable := hs.perform _
  have hscan : ∃ r ∈ s.scans, s.catalogue.isCurrent r = true ∧
      (s.catalogue.endScan r (some r.scan.found)).1 = ["m=1"] := by decide +kernel
  have hbind : ((s'.catalogue.bindType "SOUND" (.plain sound)).toOption.map fun bound =>
      (bound.1.emit bound.2).1) = some ["n=1", "o"] := by decide +kernel
  refine ⟨⟨hs, ?_⟩, hs', ?_⟩
  · obtain ⟨r, hr, hcurrent, hreports⟩ := hscan
    have hannounces := ((reloads_announced hs).1 r r.scan.found hcurrent).1
    rw [hreports] at hannounces
    exact ⟨r, hr, hcurrent, hreports, hannounces⟩
  · cases hbound : s'.catalogue.bindType "SOUND" (.plain sound) with
    | error e =>
      rw [hbound] at hbind
      simp [Except.toOption] at hbind
    | ok bound =>
      rw [hbound] at hbind
      have hreports : (bound.1.emit bound.2).1 = ["n=1", "o"] := Option.some.inj hbind
      have hannounces := ((reloads_announced hs').2 _ _ bound.1 bound.2 hbound).1
      rw [hreports] at hannounces
      exact ⟨bound.1, bound.2, rfl, hreports, hannounces⟩

end System

end AssetDecl
