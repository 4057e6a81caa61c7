import AssetDecl.Proofs.WaitingBlocks
import Mathlib.Data.String.Basic

/-!
# Declarations that fit their keys

With faithful creators a declaration has the type of its key, and its name and that of its source
are the name of the key up to case; a source without a keyword comes from a scan of the same type
(`Stored.Fits`). The type of an entry is chosen when a block is scanned, when a waiting block is
tried again and when a declaration is made on demand. A block without a keyword is only ever given
its default type, at first (`Findings.DefaultsTo`) as well as later (`WaitingBlock.Proper`), so that
every event keeps all declarations fitting (`System.Fits.perform`).
-/

namespace AssetDecl

/-! ## Faithful creators -/

namespace Bindings

variable {b b' : Bindings} {keyword : String} {c : Creator} {t t' : DeclType}

/-- Whatever keyword a creator is bound to, it is faithful. -/
def AllFaithful (b : Bindings) : Prop :=
  ∀ (k : String) c, b.byKeyword[k]? = some c → c.Faithful

theorem allFaithful_empty : ({} : Bindings).AllFaithful := by
  intro k c h
  simp at h

theorem AllFaithful.bindKeyword (h : b.AllFaithful) (hc : c.Faithful)
    (hb : b.bindKeyword keyword c = .ok b') : b'.AllFaithful := by
  obtain ⟨-, rfl⟩ := bindKeyword_eq_ok hb
  intro k c' hk
  rw [Std.ExtTreeMap.getElem?_insert] at hk
  split at hk
  · exact Option.some.inj hk ▸ hc
  · exact h k c' hk

theorem AllFaithful.unbindKeyword (h : b.AllFaithful)
    (hb : b.unbindKeyword keyword order = .ok (c, b')) : b'.AllFaithful := by
  obtain ⟨-, hkeywords, -⟩ := unbindKeyword_eq_ok hb
  intro k c' hk
  rw [hkeywords, Std.ExtTreeMap.getElem?_erase] at hk
  split at hk
  · simp at hk
  · exact h k c' hk

theorem AllFaithful.of_typeCreator? (h : b.AllFaithful) (hb : b.Consistent)
    (hc : b.typeCreator? t = some c) : c.Faithful := by
  obtain ⟨-, k, hk⟩ := hb.bound t c hc
  exact h k c hk

/-- Without a keyword only the default type comes into question. -/
theorem eq_of_meet_default (h : b.meet (.of "" t) = some t') : t' = t := by
  rw [Need.of, if_pos rfl, meet_defaultType] at h
  split at h
  · exact (Option.some.inj h).symm
  · simp at h

end Bindings

/-! ## Blocks without a keyword -/

namespace Findings

variable {b : Bindings} {t : DeclType} {f : Findings}

/-- Among the blocks that have a type, those without a keyword have this one. -/
def DefaultsTo (t : DeclType) (f : Findings) : Prop :=
  ∀ t', ∀ block ∈ f.blocksOf t', block.keyword = "" → t' = t

theorem defaultsTo_empty (t : DeclType) : ({} : Findings).DefaultsTo t := by
  intro t' block h
  simp [blocksOf] at h

theorem DefaultsTo.addBlock (h : f.DefaultsTo t) (block : BlockSource) :
    (addBlock b t f block).DefaultsTo t := by
  intro t' block' hblock' hempty
  rw [blocksOf_addBlock] at hblock'
  rcases List.mem_append.mp hblock' with hblock' | hblock'
  · exact h t' block' hblock' hempty
  · split at hblock'
    · rename_i hmeet
      obtain rfl := List.mem_singleton.mp hblock'
      exact Bindings.eq_of_meet_default (hempty ▸ hmeet)
    · simp at hblock'

theorem DefaultsTo.addFile (h : f.DefaultsTo t) (file : SourceFile) (blocks : List BlockSource) :
    (f.addFile b t file blocks).DefaultsTo t :=
  List.foldlRecOn (motive := DefaultsTo t) blocks (Findings.addBlock b t) h
    fun _ h block _ => h.addBlock block

end Findings

theorem Scan.defaultsTo_step {access : FileAccess} {b : Bindings} {s s' : Scan}
    (h : s.found.DefaultsTo s.defaultType) (hstep : s.step access b = .running s') :
    s'.found.DefaultsTo s'.defaultType := by
  have hsteps := steps_step access b s
  rw [hstep] at hsteps
  cases hsteps with
  | record _ => exact h.addFile _ _
  | skip _ _ _ => exact h
  | read _ _ _ _ => exact h
  | list _ _ _ => exact h

/-! ## Stores -/

theorem DeclKey.name_lt_of_compare {key key' : DeclKey} (ht : key.declType = key'.declType)
    (h : compare key key' = .lt) : key.name < key'.name := by
  have h : (compare key.declType key'.declType).then (compare key.name key'.name) = .lt := h
  rw [DeclType.compare_eq_eq.mpr ht] at h
  exact compare_lt_iff_lt.mp (h : compare key.name key'.name = .lt)

/-- The declaration belongs under this key: it has the type of the key, and its name and that of its
source are those of the key up to case. A source without a keyword comes from a scan of this type,
unless the declaration was made on demand. -/
structure Stored.Fits (key : DeclKey) (st : Stored) : Prop where
  declType_eq : st.declaration.declType = key.declType
  name_eq : Text.foldCase st.declaration.name = key.name
  blockName_eq : Text.foldCase st.declaration.block.name = key.name
  origin_eq : st.declaration.block.keyword = "" →
    st.origin = none ∨ st.origin = some key.declType

/-- A faithful creator makes declarations that belong under the key of their block. -/
theorem Creator.Faithful.fits {c : Creator} (hc : c.Faithful) (block : BlockSource)
    {origin : Option DeclType}
    (horigin : block.keyword = "" → origin = none ∨ origin = some c.declType) (handle : Handle) :
    Stored.Fits (.of c.declType block.name) ⟨handle, c.create block.name block, origin⟩ := by
  obtain ⟨htype, hname, hblock⟩ := hc block.name block
  refine ⟨htype, ?_, ?_, ?_⟩
  · show Text.foldCase (c.create block.name block).name = _
    rw [hname]
    rfl
  · show Text.foldCase (c.create block.name block).block.name = _
    rw [hblock]
    rfl
  · show (c.create block.name block).block.keyword = "" → _
    rw [hblock]
    exact horigin

theorem Stored.Fits.renew {c : Creator} {block : BlockSource} {origin : DeclType}
    {old : Option Stored} (h : ∀ st, old = some st → st.Fits (.of c.declType block.name))
    (hc : c.Faithful) (horigin : block.keyword = "" → c.declType = origin) (fresh : Handle) :
    (renew c fresh block origin old).Fits (.of c.declType block.name) := by
  have horigin' : block.keyword = "" → some origin = none ∨ some origin = some c.declType :=
    fun hempty => .inr (congrArg some (horigin hempty).symm)
  cases old with
  | none => exact hc.fits block horigin' fresh
  | some st =>
    have hst := h st rfl
    exact ⟨hst.declType_eq, hst.name_eq, rfl, horigin'⟩

namespace Store

variable {s s' : Store} {b : Bindings} {t : DeclType} {block : BlockSource}

/-- Whatever is stored fits its key. -/
def Fits (s : Store) : Prop :=
  ∀ key st, s.stored? key = some st → st.Fits key

theorem fits_empty : ({} : Store).Fits := by
  intro key st h
  simp [stored?] at h

/-- A declaration that is made on demand has a source without a keyword and no origin. -/
theorem Fits.insertNew (h : s.Fits) (hs : s.Sound) {c : Creator} (hc : c.Faithful)
    (name : String) :
    (s.insertNew (.of c.declType name) (c.create name { name }) none).2.Fits := by
  intro key st hst
  rw [hs.stored?_insertNew] at hst
  split at hst
  · rename_i hkey
    obtain rfl := Option.some.inj hst
    exact hkey ▸ hc.fits { name } (fun _ => .inl rfl) _
  · exact h key st hst

theorem stored?_remove (s : Store) (t : DeclType) (name : String) (key : DeclKey) :
    (s.remove t name).2.stored? key = if DeclKey.of t name = key then none else s.stored? key := by
  unfold remove stored?
  simp only [Std.ExtTreeMap.getElem?_erase, DeclKey.compare_eq_eq]
  split <;> rfl

theorem Fits.remove (h : s.Fits) (t : DeclType) (name : String) : (s.remove t name).2.Fits := by
  intro key st hst
  rw [stored?_remove] at hst
  split at hst
  · simp at hst
  · exact h key st hst

theorem Fits.dropVanished (h : s.Fits) (origin : DeclType) (seen : DeclKey → Bool) :
    (s.dropVanished origin seen).Fits := by
  intro key st hst
  rw [stored?_dropVanished] at hst
  exact h key st (Option.filter_eq_some_iff.mp hst).1

theorem Fits.install (h : s.Fits) (hs : s.Sound) (hb : b.Consistent) (hfaithful : b.AllFaithful)
    {origin : DeclType} (horigin : block.keyword = "" → t = origin)
    (hinstall : s.install b t block origin = some s') : s'.Fits := by
  have hsome : (b.typeCreator? t).isSome := by
    rw [← install_isSome s b t block origin, hinstall]
    rfl
  obtain ⟨c, hc⟩ := Option.isSome_iff_exists.mp hsome
  obtain ⟨s'', hs'', -, hstored⟩ := hs.install hc block origin
  obtain rfl := Option.some.inj (hinstall.symm.trans hs'')
  intro key st hst
  rw [hstored] at hst
  split at hst
  · rename_i hkey
    obtain rfl := Option.some.inj hst
    subst hkey
    obtain rfl := (hb.bound t c hc).1
    exact .renew (h _) (hfaithful.of_typeCreator? hb hc) horigin _
  · exact h key st hst

/-! ## The declarations of a type -/

/-- The declarations of a type come in the order of their folded names. -/
theorem Fits.sorted_declarationsOf (h : s.Fits) (t : DeclType) :
    ((s.declarationsOf t).map fun d => Text.foldCase d.name).Pairwise (· < ·) := by
  have hordered : s.entries.toList.Pairwise fun p p' => compare p.1 p'.1 = .lt :=
    Std.ExtTreeMap.ordered_keys_toList
  have hpicked : ∀ p ∈ s.entries.toList, ∀ d,
      (if p.1.declType = t then some p.2.handle else none).bind s.declaration? = some d →
      p.1.declType = t ∧ Text.foldCase d.name = p.1.name := by
    intro p hp d hd
    split at hd
    · rename_i ht
      have he := Std.ExtTreeMap.mem_toList_iff_getElem?_eq_some.mp hp
      have hd : s.declaration? p.2.handle = some d := hd
      have hst : s.stored? p.1 = some ⟨p.2.handle, d, p.2.origin⟩ := by
        rw [stored?_of_entry he, hd, Option.map_some]
      exact ⟨ht, (h p.1 _ hst).name_eq⟩
    · simp at hd
  unfold Store.declarationsOf handlesOf
  rw [List.filterMap_filterMap, List.pairwise_map, List.pairwise_filterMap]
  refine hordered.imp_of_mem fun {p p'} hp hp' hlt d hd d' hd' => ?_
  obtain ⟨ht, hname⟩ := hpicked p hp d hd
  obtain ⟨ht', hname'⟩ := hpicked p' hp' d' hd'
  rw [hname, hname']
  exact DeclKey.name_lt_of_compare (ht.trans ht'.symm) hlt

end Store

/-! ## Installing blocks -/

namespace Catalogue

variable {cat : Catalogue} {t : DeclType} {previous : FileSet} {f : Findings}

namespace Installing

variable {b : Bindings} {i : Installing} {p : WaitingBlock}

theorem fits_put (h : i.store.Fits) (hs : i.store.Sound) (hb : b.Consistent)
    (hfaithful : b.AllFaithful) (horigin : p.block.keyword = "" → t = p.origin) :
    (i.put b t p).store.Fits := by
  unfold put
  split
  · rename_i hinstall
    exact h.install hs hb hfaithful horigin hinstall
  · exact h

/-- A block without a keyword has waited for its default type, and is given no other. -/
theorem fits_retry (h : i.store.Fits) (hs : i.store.Sound) (hb : b.Consistent)
    (hfaithful : b.AllFaithful) (hp : p.Proper) : (i.retry b p).store.Fits := by
  unfold retry
  split
  · rename_i hmeet
    refine fits_put h hs hb hfaithful fun hempty => ?_
    rw [hp.need_eq, hempty] at hmeet
    exact Bindings.eq_of_meet_default hmeet
  · exact h

end Installing

theorem fits_retryWaiting (h : cat.store.Fits) (hs : cat.Sound)
    (hfaithful : cat.bindings.AllFaithful) (hwaiting : ∀ p ∈ cat.waiting, p.Proper)
    (changed : TypeSet) : (cat.retryWaiting changed).1.store.Fits := by
  refine (List.foldlRecOn (motive := fun i : Installing => i.store.Sound ∧ i.store.Fits)
    cat.waiting (Installing.retry cat.bindings) ⟨hs.store, h⟩ fun i hi p hp => ?_).2
  exact ⟨Installing.sound_retry hi.1,
    Installing.fits_retry hi.2 hi.1 hs.bindings hfaithful (hwaiting p hp)⟩

theorem fits_installFound (h : cat.store.Fits) (hs : cat.Sound)
    (hfaithful : cat.bindings.AllFaithful) (hf : f.DefaultsTo t) :
    (cat.installFound t f).store.Fits := by
  refine (List.foldlRecOn (motive := fun i : Installing => i.store.Sound ∧ i.store.Fits)
    f.assigned (Installing.putFound cat.bindings t)
    ⟨hs.store.dropVanished t f.sees, h.dropVanished t f.sees⟩ fun i hi p hp => ?_).2
  refine ⟨Installing.sound_put hi.1, Installing.fits_put hi.2 hi.1 hs.bindings hfaithful ?_⟩
  exact hf p.1 p.2 (Findings.mem_assigned.mp hp)

theorem fits_installScan (h : cat.store.Fits) (hs : cat.Sound)
    (hfaithful : cat.bindings.AllFaithful) (hwaiting : ∀ p ∈ cat.waiting, p.Proper)
    (hproper : f.Proper) (hf : f.DefaultsTo t) :
    (cat.installScan t previous f).1.store.Fits := by
  rw [installScan_eq]
  exact fits_retryWaiting (fits_installFound h hs hfaithful hf) (hs.withFound t previous f)
    hfaithful (proper_withFound hwaiting hproper) _

end Catalogue

/-! ## Systems -/

namespace System

variable {s : System}

/-- The event is an operation of the catalogue, and a creator that it binds is faithful. -/
def Event.Faithful : Event → Prop
  | .bind _ c => c.Faithful
  | .setBlock _ _ => False
  | _ => True

/-- All declarations fit, and all creators and scans will make it stay so. -/
structure Fits (s : System) : Prop where
  creators : s.catalogue.bindings.AllFaithful
  store : s.catalogue.store.Fits
  scans : ∀ r ∈ s.scans, r.scan.found.DefaultsTo r.scan.defaultType

theorem fits_start (limits : ScanLimits) : ({ catalogue := { limits } } : System).Fits :=
  ⟨Bindings.allFaithful_empty, Store.fits_empty, fun _ hr => absurd hr List.not_mem_nil⟩

theorem Fits.of_agrees {s' : System} (h : s.Fits) (hagrees : s.catalogue.Agrees s'.catalogue)
    (hscans : ∀ r ∈ s'.scans, r ∈ s.scans ∨ ∃ cat t, r = (Catalogue.launch cat t).1) :
    s'.Fits := by
  refine ⟨?_, ?_, fun r hr => ?_⟩
  · rw [hagrees.bindings]
    exact h.creators
  · rw [hagrees.store]
    exact h.store
  · rcases hscans r hr with hr | ⟨cat, t, rfl⟩
    · exact h.scans r hr
    · exact Findings.defaultsTo_empty t

theorem Fits.become {cat? : Option Catalogue} (h : s.Fits)
    (hcat : ∀ cat, cat? = some cat → s.catalogue.SameButTickets cat) : (s.become cat?).Fits :=
  h.of_agrees (sameButTickets_become hcat).agrees fun _ hr => .inl hr

theorem Fits.bind (h : s.Fits) (keyword : String) {c : Creator} (hc : c.Faithful) :
    (s.bind keyword c).Fits := by
  unfold System.bind
  split
  · exact h
  · rename_i hb
    exact ⟨h.creators.bindKeyword hc hb, h.store, h.scans⟩

theorem Fits.unbind (h : s.Fits) (keyword : String) (order : TableOrder String) :
    (s.unbind keyword order).Fits := by
  unfold System.unbind Catalogue.unbindType
  cases hb : s.catalogue.bindings.unbindKeyword keyword order with
  | error e => exact h
  | ok unbound => exact ⟨h.creators.unbindKeyword hb, h.store, h.scans⟩

theorem Fits.retry (h : s.Fits) (hs : s.Sound) (hproper : s.Proper) : s.retry.Fits := by
  rw [System.retry_eq]
  split
  · exact h
  · exact ⟨h.creators,
      Catalogue.fits_retryWaiting h.store hs.catalogue h.creators hproper.waiting ∅, h.scans⟩

theorem Fits.findOrCreate (h : s.Fits) (hs : s.Sound) (t : DeclType) (name : String) :
    (s.findOrCreate t name).Fits := by
  unfold System.findOrCreate
  split
  · exact h
  · rename_i hf
    rcases Catalogue.findOrCreate_cases hf with rfl | ⟨c, hc, rfl⟩
    · exact h
    · obtain rfl := (hs.catalogue.bindings.bound t c hc).1
      have hfaithful := h.creators.of_typeCreator? hs.catalogue.bindings hc
      exact ⟨h.creators, h.store.insertNew hs.catalogue.store hfaithful name, h.scans⟩

theorem Fits.advance (h : s.Fits) (hs : s.Sound) (hproper : s.Proper) (index : Nat)
    (access : FileAccess) : (s.advance index access).Fits := by
  rw [System.advance_eq]
  cases hr : s.scans[index]? with
  | none => exact h
  | some r =>
    have hmem := List.mem_of_getElem? hr
    have hdefaults := h.scans r hmem
    have herase : ∀ r' ∈ s.scans.eraseIdx index, r'.scan.found.DefaultsTo r'.scan.defaultType :=
      fun r' hr' => h.scans r' (List.mem_of_mem_eraseIdx hr')
    dsimp only
    cases hstep : r.scan.step access s.catalogue.bindings with
    | running scan =>
      refine ⟨h.creators, h.store, fun r' hr' => ?_⟩
      rcases List.mem_or_eq_of_mem_set hr' with hr' | rfl
      · exact h.scans r' hr'
      · exact Scan.defaultsTo_step hdefaults hstep
    | finished found =>
      have hfound := Scan.found_of_finished hstep
      have hinstalled : (s.catalogue.completeScan r found).1.store.Fits := by
        unfold Catalogue.completeScan
        split
        · exact Catalogue.fits_installScan h.store hs.catalogue h.creators hproper.waiting
            (hfound ▸ (hproper.scans r hmem).found) (hfound ▸ hdefaults)
        · exact h.store
      refine ⟨?_, hinstalled, herase⟩
      show (s.catalogue.completeScan r found).1.bindings.AllFaithful
      unfold Catalogue.completeScan
      split
      · exact h.creators
      · exact h.creators
    | crashed => exact ⟨h.creators, h.store, herase⟩

/-- Every faithful event keeps all declarations fitting. -/
theorem Fits.perform (h : s.Fits) (hs : s.Sound) (hproper : s.Proper) {e : Event}
    (he : e.Faithful) : (s.perform e).Fits := by
  cases e with
  | bind keyword c => exact h.bind keyword he
  | retry => exact h.retry hs hproper
  | unbind keyword order => exact h.unbind keyword order
  | addFolder t folder extension =>
    refine h.of_agrees (Catalogue.agrees_addFolder s.catalogue t folder extension) fun r hr => ?_
    rcases List.mem_append.mp hr with hr | hr
    · exact .inl hr
    · exact .inr ⟨_, t, List.mem_singleton.mp hr⟩
  | rescan =>
    refine h.of_agrees (Catalogue.agrees_rescan s.catalogue) fun r hr => ?_
    rcases List.mem_append.mp hr with hr | hr
    · exact .inl hr
    · obtain ⟨cat, t, -, rfl⟩ := Catalogue.launched_of_mem_rescan hr
      exact .inr ⟨cat, t, rfl⟩
  | findOrCreate t name => exact h.findOrCreate hs t name
  | remove t name => exact ⟨h.creators, h.store.remove t name, h.scans⟩
  | setBlock handle block => exact absurd he id
  | advance index access => exact h.advance hs hproper index access
  | leave index =>
    show (s.leave index).Fits
    unfold System.leave
    split
    · exact h
    · exact ⟨h.creators, h.store, h.scans⟩
  | await t => exact h.become fun cat hcat => Catalogue.sameButTickets_awaitType hcat
  | awaitAll => exact h.become fun cat hcat => Catalogue.sameButTickets_joinCurrent hcat
  | joinEvery => exact h.become fun cat hcat => Catalogue.sameButTickets_joinEvery hcat
  | connect t watcher => exact ⟨h.creators, h.store, h.scans⟩
  | disconnect t id => exact ⟨h.creators, h.store, h.scans⟩

theorem fits_run (limits : ScanLimits) {es : List Event} (hes : ∀ e ∈ es, e.Faithful) :
    (es.foldl perform { catalogue := { limits } }).Fits ∧
      (es.foldl perform { catalogue := { limits } }).Reachable := by
  refine List.foldlRecOn (motive := fun s : System => s.Fits ∧ s.Reachable) es perform
    ⟨fits_start limits, .start limits⟩ fun s h e he => ?_
  exact ⟨h.1.perform h.2.sound h.2.proper (hes e he), h.2.perform e⟩

/-- While creators are faithful, every entry leads to a declaration that fits its key, and the
declaration is found under its name in any case. The declarations of a type come in the order of
their folded names, and no two of them have the same name up to case. -/
theorem declarations_fit (limits : ScanLimits) (es : List Event) (hes : ∀ e ∈ es, e.Faithful) :
    let cat := (es.foldl perform { catalogue := { limits } }).catalogue
    (∀ t k entry, cat.store.entries[(⟨t, k⟩ : DeclKey)]? = some entry →
      ∃ d, cat.store.declaration? entry.handle = some d ∧
        d.declType = t ∧ Text.foldCase d.name = k ∧ Text.foldCase d.block.name = k ∧
        (d.block.keyword = "" → entry.origin = none ∨ entry.origin = some t) ∧
        ∀ name, Text.foldCase name = Text.foldCase d.name →
          cat.find? t name = some entry.handle ∧
          cat.findOrCreate t name = .ok (entry.handle, cat)) ∧
    ∀ t, ((cat.store.declarationsOf t).map fun d => Text.foldCase d.name).Pairwise (· < ·) ∧
      ((cat.store.declarationsOf t).map fun d => Text.foldCase d.name).Nodup := by
  intro cat
  obtain ⟨hfits, hreachable⟩ := fits_run limits hes
  refine ⟨fun t k entry he => ?_, fun t => ?_⟩
  · obtain ⟨d, hd⟩ := hreachable.sound.catalogue.store.declaration_of_entry he
    have hst : cat.store.stored? ⟨t, k⟩ = some ⟨entry.handle, d, entry.origin⟩ := by
      rw [Store.stored?_of_entry he, hd, Option.map_some]
    obtain ⟨htype, hname, hblock, horigin⟩ := hfits.store _ _ hst
    refine ⟨d, hd, htype, hname, hblock, horigin, fun name hcase => ?_⟩
    have hfind : cat.find? t name = some entry.handle := by
      have hkey : DeclKey.of t name = ⟨t, k⟩ := congrArg (DeclKey.mk t) (hcase.trans hname)
      show cat.store.entries[DeclKey.of t name]?.map StoreEntry.handle = _
      rw [hkey, he, Option.map_some]
    refine ⟨hfind, ?_⟩
    unfold Catalogue.findOrCreate
    rw [show cat.store.find? t name = some entry.handle from hfind]
  · have hsorted := hfits.store.sorted_declarationsOf t
    exact ⟨hsorted, hsorted.imp ne_of_lt⟩

/-- A declaration that is made on demand is kept when a scan finds a block of its name in another
case. -/
theorem declarations_fit_moss :
    let t : DeclType := ⟨"material"⟩
    let access := FileAccess.ofTexts [("materials/a.mtr", "Moss {} ROCK Granite {}")]
    let events : List Event :=
      [.bind "rock" (.plain t), .retry, .findOrCreate t "MOSS", .addFolder t "materials" "mtr"] ++
        List.replicate 4 (.advance 0 access)
    let cat := (events.foldl perform {}).catalogue
    (∀ e ∈ events, e.Faithful) ∧
      cat.store.entries[(⟨t, "moss"⟩ : DeclKey)]? = some ⟨0, some t⟩ ∧
      (cat.store.declarationsOf t).map (fun d => (d.name, d.block.name)) =
        [("Granite", "Granite"), ("MOSS", "Moss")] ∧
      cat.findOrCreate t "moSS" = .ok (0, cat) ∧
      ((cat.store.declarationsOf t).map fun d => Text.foldCase d.name).Pairwise (· < ·) := by
  intro t access events cat
  have hfaithful : ∀ e ∈ events, e.Faithful := by
    simp [events, Event.Faithful, Creator.faithful_plain]
  have hentry : cat.store.entries[(⟨t, "moss"⟩ : DeclKey)]? = some ⟨0, some t⟩ := by decide +kernel
  have hnames : (cat.store.declarationsOf t).map (fun d => (d.name, d.block.name)) =
      [("Granite", "Granite"), ("MOSS", "Moss")] := by decide +kernel
  obtain ⟨hentries, hsorted⟩ := declarations_fit {} events hfaithful
  obtain ⟨d, -, -, hname, -, -, hfound⟩ := hentries t "moss" _ hentry
  exact ⟨hfaithful, hentry, hnames, (hfound "moSS" hname.symm).2, (hsorted t).1⟩

end System

end AssetDecl
