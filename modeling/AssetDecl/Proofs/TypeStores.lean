import AssetDecl.Proofs.ChangedTypes

/-!
# Stores by type

Whatever asks for a type to be filled opens a store for it, which stays even if nothing is ever put
there. Declarations and scans are read and found through the stores that have been opened. It does
not matter which stores these are, as long as every declaration and every scan has one
(`Catalogue.Housed.readings_eq`, `Catalogue.Housed.within_eq`), and every event keeps that so
(`System.WithStores.Reachable.housed`).
-/

namespace AssetDecl

/-! ## Readings -/

/-- What whoever asks finds of a scan: its number and the result of joining its worker, none while
that runs. -/
def ScanTicket.sight (ticket : ScanTicket) : Nat × Option (Except Failure Unit) :=
  (ticket.generation, ticket.join?)

/-- What is kept of one type: its declarations by folded name, and its newest scan. -/
structure TypeStore where
  declarations : List (String × StoreEntry) := []
  scan : Option ScanTicket := none

/-- What is read from the stores. -/
structure Readings where
  find? : DeclType → String → Option Handle
  handles : DeclType → List Handle
  count : DeclType → Nat
  /-- The types with a declaration. -/
  types : List DeclType
  /-- The newest scan of a type. -/
  scan? : DeclType → Option (Nat × Option (Except Failure Unit))
  /-- The newest scans of all types, in whatever order they are come by. -/
  scans : Multiset (Nat × Option (Except Failure Unit))
  /-- The types of which a completed scan, which has seen some keys again, removes a declaration. -/
  vanished : DeclType → (DeclKey → Bool) → TypeSet

namespace Catalogue

variable {cat cat' : Catalogue} {opened opened' changed : TypeSet} {t : DeclType} {name : String}
  {entry : StoreEntry}

/-- The store of a type, empty if nothing is there. -/
def storeOf (cat : Catalogue) (t : DeclType) : TypeStore where
  declarations := cat.store.entries.toList.filterMap fun (key, entry) =>
    if key.declType = t then some (key.name, entry) else none
  scan := cat.tickets[t]?

/-- The stores that have been opened. -/
def stores (cat : Catalogue) (opened : TypeSet) : List (DeclType × TypeStore) :=
  opened.toList.map fun t => (t, cat.storeOf t)

/-- The store of a type, an empty one if none has been opened. -/
def openStore (cat : Catalogue) (opened : TypeSet) (t : DeclType) : TypeStore :=
  if t ∈ opened then cat.storeOf t else {}

/-- What is read through the stores that have been opened. -/
def readings (cat : Catalogue) (opened : TypeSet) : Readings where
  find? t name := ((cat.openStore opened t).declarations.lookup (Text.foldCase name)).map
    StoreEntry.handle
  handles t := (cat.openStore opened t).declarations.map (·.2.handle)
  count t := (cat.openStore opened t).declarations.length
  types := ((cat.stores opened).filter (!·.2.declarations.isEmpty)).map Prod.fst
  scan? t := (cat.openStore opened t).scan.map ScanTicket.sight
  scans := ((cat.stores opened).filterMap (·.2.scan)).map ScanTicket.sight
  vanished origin seen := .ofList (((cat.stores opened).filter fun (t, store) =>
    store.declarations.any fun (name, entry) =>
      Store.isVanished origin seen ⟨t, name⟩ entry).map Prod.fst)

/-- The catalogue as it is found through the stores that have been opened. -/
def within (cat : Catalogue) (opened : TypeSet) : Catalogue :=
  { cat with
    tickets := cat.tickets.filter fun t _ => opened.contains t
    store := { cat.store with
      entries := cat.store.entries.filter fun key _ => opened.contains key.declType } }

/-- What is read with no stores in between. -/
def plainReadings (cat : Catalogue) : Readings where
  find? := cat.find?
  handles := cat.handles
  count := cat.count
  types := cat.heldTypes
  scan? t := cat.tickets[t]?.map ScanTicket.sight
  scans := cat.tickets.values.map ScanTicket.sight
  vanished origin seen := .ofList (cat.store.vanishedTypes origin seen)

/-! ## The content of a store -/

theorem mem_storeOf : (name, entry) ∈ (cat.storeOf t).declarations ↔
    cat.store.entries[DeclKey.mk t name]? = some entry := by
  rw [← Std.ExtTreeMap.mem_toList_iff_getElem?_eq_some, storeOf, List.mem_filterMap]
  constructor
  · rintro ⟨⟨key, entry'⟩, hmem, heq⟩
    obtain ⟨rfl, rfl, rfl⟩ : key.declType = t ∧ key.name = name ∧ entry' = entry := by
      simpa using heq
    exact hmem
  · exact fun hmem => ⟨_, hmem, by simp⟩

theorem lookup_storeOf (cat : Catalogue) (t : DeclType) (name : String) :
    (cat.storeOf t).declarations.lookup name = cat.store.entries[DeclKey.mk t name]? := by
  cases hlookup : (cat.storeOf t).declarations.lookup name with
  | some entry =>
    obtain ⟨before, after, heq, -⟩ := List.lookup_eq_some_iff.1 hlookup
    refine (mem_storeOf.1 ?_).symm
    rw [heq]
    exact List.mem_append_right _ List.mem_cons_self
  | none =>
    refine (Option.eq_none_iff_forall_ne_some.2 fun entry hentry => ?_).symm
    have hne := List.lookup_eq_none_iff.1 hlookup _ (mem_storeOf.2 hentry)
    simp at hne

theorem map_handle_storeOf (cat : Catalogue) (t : DeclType) :
    (cat.storeOf t).declarations.map (·.2.handle) = cat.handles t := by
  unfold storeOf handles Store.handlesOf
  rw [List.map_filterMap]
  refine List.filterMap_congr fun (key, entry) _ => ?_
  dsimp only
  split <;> rfl

theorem isEmpty_storeOf :
    (cat.storeOf t).declarations.isEmpty = false ↔
      ∃ name, DeclKey.mk t name ∈ cat.store.entries := by
  simp only [List.isEmpty_eq_false_iff_exists_mem, Prod.exists, mem_storeOf,
    Std.ExtTreeMap.mem_iff_isSome_getElem?, Option.isSome_iff_exists]

/-! ## Readings through opened stores -/

theorem mem_heldTypes :
    t ∈ cat.heldTypes ↔ ∃ name, DeclKey.mk t name ∈ cat.store.entries := by
  unfold heldTypes Store.types DeclType.sorted
  simp only [Std.ExtTreeMap.mem_keys, Std.ExtTreeMap.mem_unitOfList, List.contains_iff_mem,
    List.mem_map]
  constructor
  · rintro ⟨⟨t, name⟩, hmem, rfl⟩
    exact ⟨name, hmem⟩
  · rintro ⟨name, hmem⟩
    exact ⟨_, hmem, rfl⟩

/-- The keys of a table are the types of the opened stores that have an entry there. -/
theorem filter_toList_eq_keys {β : Type} {m : Std.ExtTreeMap DeclType β} {p : DeclType → Bool}
    (h : ∀ t, t ∈ m ↔ t ∈ opened ∧ p t) : opened.toList.filter p = m.keys := by
  have hirrefl : Std.Irrefl fun a b : DeclType => compare a b = .lt :=
    ⟨fun a hlt => by simp [Std.ReflCmp.compare_self] at hlt⟩
  have hantisymm : Std.Antisymm fun a b : DeclType => compare a b = .lt :=
    ⟨fun a b hab hba => absurd hba (Std.OrientedCmp.not_lt_of_lt hab)⟩
  refine List.Pairwise.eq_of_mem_iff
    ((Std.ExtTreeSet.ordered_toList (t := opened)).filter p) Std.ExtTreeMap.ordered_keys
    fun t => ?_
  rw [List.mem_filter, Std.ExtTreeSet.mem_toList, Std.ExtTreeMap.mem_keys, h]

theorem values_eq_filterMap_keys {β : Type} (m : Std.ExtTreeMap DeclType β) :
    m.values = m.keys.filterMap fun t => m[t]? := by
  rw [values_eq_map_toList, ← Std.ExtTreeMap.map_fst_toList_eq_keys, List.filterMap_map,
    ← List.filterMap_eq_map]
  refine List.filterMap_congr fun entry hentry => ?_
  exact (Std.ExtTreeMap.mem_toList_iff_getElem?_eq_some.1 hentry).symm

theorem filter_eq_self_of_mem {κ β : Type} {cmp : κ → κ → Ordering} [Std.TransCmp cmp]
    [Std.LawfulEqCmp cmp] (m : Std.ExtTreeMap κ β cmp) (p : κ → Bool) (h : ∀ k ∈ m, p k) :
    m.filter (fun k _ => p k) = m := by
  refine Std.ExtTreeMap.ext_getElem? fun k => ?_
  rw [Std.ExtTreeMap.getElem?_filter']
  cases hk : m[k]? with
  | none => rfl
  | some b =>
    have hmem : k ∈ m := Std.ExtTreeMap.mem_iff_isSome_getElem?.2 (by rw [hk]; rfl)
    rw [Option.filter_some, h k hmem]
    rfl

/-- Every declaration and every scan has a store that has been opened. -/
structure Housed (cat : Catalogue) (opened : TypeSet) : Prop where
  declarations : ∀ key, key ∈ cat.store.entries → key.declType ∈ opened
  scans : ∀ t, t ∈ cat.tickets → t ∈ opened

namespace Housed

/-- Where no store has been opened there is nothing. -/
theorem openStore_eq (h : cat.Housed opened) (t : DeclType) :
    cat.openStore opened t = cat.storeOf t := by
  unfold openStore
  split
  · rfl
  · rename_i ht
    have hdeclarations : (cat.storeOf t).declarations = [] :=
      List.eq_nil_iff_forall_not_mem.2 fun (name, entry) hmem =>
        ht (h.declarations _ (Std.ExtTreeMap.mem_iff_isSome_getElem?.2
          (Option.isSome_iff_exists.2 ⟨entry, mem_storeOf.1 hmem⟩)))
    have hscan : (cat.storeOf t).scan = none :=
      Std.ExtTreeMap.getElem?_eq_none fun hmem => ht (h.scans t hmem)
    calc ({} : TypeStore) = ⟨(cat.storeOf t).declarations, (cat.storeOf t).scan⟩ := by
          rw [hdeclarations, hscan]
      _ = cat.storeOf t := rfl

theorem types_eq (h : cat.Housed opened) : (cat.readings opened).types = cat.heldTypes := by
  have hfilter : opened.toList.filter (fun t => !(cat.storeOf t).declarations.isEmpty) =
      (Std.ExtTreeMap.unitOfList (cat.store.entries.keys.map DeclKey.declType)).keys := by
    refine filter_toList_eq_keys fun t => ?_
    rw [← Std.ExtTreeMap.mem_keys, Bool.not_eq_true', isEmpty_storeOf]
    refine mem_heldTypes.trans ⟨fun ⟨name, hname⟩ => ?_, And.right⟩
    exact ⟨h.declarations _ hname, name, hname⟩
  unfold readings stores
  dsimp only
  rw [List.filter_map, List.map_map]
  exact (List.map_id'' (fun _ => rfl) _).trans hfilter

theorem filterMap_stores (h : cat.Housed opened) :
    (cat.stores opened).filterMap (·.2.scan) = cat.tickets.values := by
  have hfilter : opened.toList.filter (fun t => (cat.tickets[t]?).isSome) = cat.tickets.keys := by
    refine filter_toList_eq_keys fun t => ?_
    rw [← Std.ExtTreeMap.mem_iff_isSome_getElem?]
    exact ⟨fun ht => ⟨h.scans t ht, ht⟩, And.right⟩
  calc (cat.stores opened).filterMap (·.2.scan)
      = opened.toList.filterMap fun t => cat.tickets[t]? := List.filterMap_map
    _ = (opened.toList.filter fun t => (cat.tickets[t]?).isSome).filterMap
          fun t => cat.tickets[t]? := by
        rw [List.filterMap_filter]
        refine List.filterMap_congr fun t _ => ?_
        cases cat.tickets[t]? <;> rfl
    _ = cat.tickets.values := by rw [hfilter, ← values_eq_filterMap_keys]

theorem vanished_eq (h : cat.Housed opened) (origin : DeclType) (seen : DeclKey → Bool) :
    (cat.readings opened).vanished origin seen = .ofList (cat.store.vanishedTypes origin seen) := by
  refine Std.ExtTreeSet.ext_mem fun t => ?_
  unfold readings stores
  dsimp only
  rw [Std.ExtTreeSet.mem_ofList, Std.ExtTreeSet.mem_ofList, List.contains_iff_mem,
    List.contains_iff_mem, Store.mem_vanishedTypes, List.filter_map, List.map_map]
  simp only [List.mem_map, List.mem_filter, Std.ExtTreeSet.mem_toList, Function.comp_apply,
    List.any_eq_true, Prod.exists, mem_storeOf]
  constructor
  · rintro ⟨t, ⟨-, name, entry, hentry, hvanished⟩, rfl⟩
    exact ⟨name, entry, hentry, hvanished⟩
  · rintro ⟨name, entry, hentry, hvanished⟩
    refine ⟨t, ⟨h.declarations ⟨t, name⟩ ?_, name, entry, hentry, hvanished⟩, rfl⟩
    exact Std.ExtTreeMap.mem_iff_isSome_getElem?.2 (Option.isSome_iff_exists.2 ⟨entry, hentry⟩)

/-- What is read does not depend on which stores have been opened. -/
theorem readings_eq (h : cat.Housed opened) : cat.readings opened = cat.plainReadings := by
  have hstore : cat.openStore opened = cat.storeOf := funext h.openStore_eq
  have hfind : ∀ t name, (cat.readings opened).find? t name = cat.find? t name := by
    intro t name
    unfold readings
    dsimp only
    rw [hstore, lookup_storeOf]
    rfl
  have hhandles : ∀ t, (cat.readings opened).handles t = cat.handles t := by
    intro t
    unfold readings
    dsimp only
    rw [hstore, map_handle_storeOf]
  have hcount : ∀ t, (cat.readings opened).count t = cat.count t := by
    intro t
    unfold readings count Store.count
    dsimp only
    rw [hstore, ← handles, ← map_handle_storeOf, List.length_map]
  have hscan : ∀ t, (cat.readings opened).scan? t = cat.tickets[t]?.map ScanTicket.sight := by
    intro t
    unfold readings
    dsimp only
    rw [hstore]
    rfl
  have hscans : (cat.readings opened).scans = ↑(cat.tickets.values.map ScanTicket.sight) := by
    unfold readings
    dsimp only
    rw [h.filterMap_stores]
  calc cat.readings opened = ⟨(cat.readings opened).find?, (cat.readings opened).handles,
        (cat.readings opened).count, (cat.readings opened).types, (cat.readings opened).scan?,
        (cat.readings opened).scans, (cat.readings opened).vanished⟩ := rfl
    _ = cat.plainReadings := by
        rw [funext fun t => funext (hfind t), funext hhandles, funext hcount, h.types_eq,
          funext hscan, hscans, funext fun t => funext (h.vanished_eq t)]
        rfl

/-- Everything is found through the stores that have been opened. -/
theorem within_eq (h : cat.Housed opened) : cat.within opened = cat := by
  have hentries := filter_eq_self_of_mem cat.store.entries
    (fun key => opened.contains key.declType) h.declarations
  have htickets := filter_eq_self_of_mem cat.tickets (fun t => opened.contains t) h.scans
  unfold within
  rw [hentries, htickets]

/-! ## Opening stores -/

theorem mono (h : cat.Housed opened) (hsub : ∀ t ∈ opened, t ∈ opened') : cat.Housed opened' :=
  ⟨fun key hkey => hsub _ (h.declarations key hkey), fun t ht => hsub t (h.scans t ht)⟩

/-- No store is needed for what happens to the scans of types that had one. -/
theorem of_tickets (h : cat.Housed opened) (hstore : cat'.store = cat.store)
    (htickets : ∀ t ∈ cat'.tickets, t ∈ cat.tickets) : cat'.Housed opened := by
  refine ⟨fun key hkey => h.declarations key ?_, fun t ht => h.scans t (htickets t ht)⟩
  rw [← hstore]
  exact hkey

theorem of_tracks (h : cat.Housed opened) (hs : cat.Sound) (hs' : cat'.Sound)
    (htracks : cat.store.Tracks cat'.store changed) (htickets : cat'.tickets = cat.tickets) :
    cat'.Housed (opened ∪ changed) := by
  refine ⟨fun key hkey => ?_, fun t ht => ?_⟩
  · rw [Std.ExtTreeSet.mem_union_iff]
    rw [hs'.store.mem_entries_iff] at hkey
    rcases htracks.kept key with heq | ⟨hchanged, -⟩
    · rw [heq, ← hs.store.mem_entries_iff] at hkey
      exact .inl (h.declarations key hkey)
    · exact .inr hchanged
  · rw [Std.ExtTreeSet.mem_union_iff]
    rw [htickets] at ht
    exact .inl (h.scans t ht)

theorem launch (h : cat.Housed opened) (ht : t ∈ opened) : (cat.launch t).2.Housed opened := by
  refine ⟨h.declarations, fun t' ht' => ?_⟩
  rcases Std.ExtTreeMap.mem_insert.1 ht' with heq | ht'
  · rw [DeclType.compare_eq_eq] at heq
    exact heq ▸ ht
  · exact h.scans t' ht'

theorem rescan (h : cat.Housed opened) (ht : ∀ t ∈ cat.defaultTypes, t ∈ opened) :
    cat.rescan.2.Housed opened :=
  List.foldlRecOn (motive := fun sc : List StartedScan × Catalogue => sc.2.Housed opened)
    cat.defaultTypes _ h fun _ hsc t hmem => hsc.launch (ht t hmem)

theorem findOrCreate (h : cat.Housed opened) {handle : Handle}
    (hmade : cat.findOrCreate t name = .ok (handle, cat')) (ht : t ∈ opened) :
    cat'.Housed opened := by
  rcases findOrCreate_cases hmade with rfl | ⟨c, -, rfl⟩
  · exact h
  · refine ⟨fun key hkey => ?_, h.scans⟩
    rcases Std.ExtTreeMap.mem_insert.1 hkey with heq | hkey
    · rw [DeclKey.compare_eq_eq] at heq
      exact heq ▸ ht
    · exact h.declarations key hkey

end Housed

theorem mem_tickets_awaitType (h : cat.awaitType t = some cat') :
    ∀ t' ∈ cat'.tickets, t' ∈ cat.tickets := by
  unfold awaitType at h
  split at h
  · obtain rfl := Option.some.inj h
    exact fun _ ht' => ht'
  · rename_i ticket hticket
    split at h
    · simp at h
    · obtain rfl := Option.some.inj h
      intro t' ht'
      rcases Std.ExtTreeMap.mem_insert.1 ht' with heq | ht'
      · rw [DeclType.compare_eq_eq] at heq
        rw [← heq, Std.ExtTreeMap.mem_iff_isSome_getElem?, hticket]
        rfl
      · exact ht'

theorem mem_tickets_joinCurrent {order : TableOrder DeclType}
    (h : (cat.joinCurrent order).map Prod.snd = some cat') :
    ∀ t ∈ cat'.tickets, t ∈ cat.tickets := by
  obtain ⟨joined, hjoin, rfl⟩ := Option.map_eq_some_iff.mp h
  obtain ⟨_, -, rfl⟩ := Option.map_eq_some_iff.mp hjoin
  exact fun t => Std.ExtTreeMap.mem_map.1

theorem mem_tickets_joinEvery {order : TableOrder DeclType}
    (h : (cat.joinEvery order).map Prod.snd = some cat') :
    ∀ t ∈ cat'.tickets, t ∈ cat.tickets := by
  obtain ⟨joined, hjoin, rfl⟩ := Option.map_eq_some_iff.mp h
  obtain ⟨_, -, rfl⟩ := Option.map_eq_some_iff.mp hjoin
  exact fun t => Std.ExtTreeMap.mem_map.1

theorem mem_tickets_workerExited (r : StartedScan) (panicked : Bool) :
    ∀ t ∈ (cat.workerExited r panicked).tickets, t ∈ cat.tickets :=
  fun _ => Std.ExtTreeMap.mem_map.1

end Catalogue

namespace System

variable {s : System} {opened : TypeSet}

/-- The types that an event opens a store for. Nothing is put there when it fails. -/
def opens (s : System) : Event → TypeSet
  | .addFolder t _ _ => {t}
  | .rescan => .ofList s.catalogue.defaultTypes
  | .findOrCreate t _ => {t}
  | e => s.changes e

theorem housed_become (h : s.catalogue.Housed opened) {cat? : Option Catalogue}
    (hcat : ∀ cat, cat? = some cat →
      cat.store = s.catalogue.store ∧ ∀ t ∈ cat.tickets, t ∈ s.catalogue.tickets) :
    (s.become cat?).catalogue.Housed opened := by
  cases cat? with
  | none => exact h
  | some cat => exact h.of_tickets (hcat cat rfl).1 (hcat cat rfl).2

theorem housed_retry (hs : s.Sound) (h : s.catalogue.Housed opened) :
    (s.perform .retry).catalogue.Housed (opened ∪ s.opens .retry) := by
  show s.retryTelling.1.catalogue.Housed (opened ∪ s.retryTelling.2)
  unfold retryTelling
  split
  · exact h.mono fun t ht => Std.ExtTreeSet.mem_union_iff.2 (.inl ht)
  · have htracks : s.catalogue.store.Tracks (s.catalogue.retryWaiting ∅).1.store
        (s.catalogue.retryWaiting ∅).2 :=
      Catalogue.tracks_retryWaiting hs.catalogue.store
        ⟨hs.catalogue.store, Store.tracks_self _⟩
    exact h.of_tracks hs.catalogue (hs.catalogue.retryWaiting ∅) htracks rfl

theorem housed_advance (hs : s.Sound) (h : s.catalogue.Housed opened) (index : Nat)
    (access : FileAccess) :
    (s.perform (.advance index access)).catalogue.Housed
      (opened ∪ s.opens (.advance index access)) := by
  have hmono : s.catalogue.Housed (opened ∪ ∅) :=
    h.mono fun t ht => Std.ExtTreeSet.mem_union_iff.2 (.inl ht)
  show (s.advanceTelling index access).1.catalogue.Housed
    (opened ∪ (s.advanceTelling index access).2)
  unfold advanceTelling
  cases s.scans[index]? with
  | none => exact hmono
  | some r =>
    dsimp only
    cases r.scan.step access s.catalogue.bindings with
    | running scan => exact hmono
    | crashed => exact hmono.of_tickets rfl (Catalogue.mem_tickets_workerExited r true)
    | finished found =>
      refine h.of_tracks hs.catalogue (hs.catalogue.completeScan r found)
        (Catalogue.tracks_completeScan hs.catalogue r found) ?_
      show (s.catalogue.completeScan r found).1.tickets = _
      unfold Catalogue.completeScan
      split <;> rfl

/-- Every event opens the stores that it needs. -/
theorem housed_perform (hs : s.Sound) (h : s.catalogue.Housed opened) (e : Event) :
    (s.perform e).catalogue.Housed (opened ∪ s.opens e) := by
  have hmono : ∀ types, s.catalogue.Housed (opened ∪ types) := fun types =>
    h.mono fun t ht => Std.ExtTreeSet.mem_union_iff.2 (.inl ht)
  cases e with
  | bind keyword c =>
    show (s.bind keyword c).catalogue.Housed _
    unfold System.bind
    split
    · exact hmono _
    · exact (hmono _).of_tickets rfl fun _ ht => ht
  | retry => exact housed_retry hs h
  | unbind keyword order =>
    show (s.unbind keyword order).catalogue.Housed _
    unfold System.unbind Catalogue.unbindType
    split
    · exact hmono _
    · rename_i hu
      split at hu
      · simp at hu
      · obtain rfl := Except.ok.inj hu
        exact (hmono _).of_tickets rfl fun _ ht => ht
  | addFolder t folder extension =>
    show (Catalogue.launch { s.catalogue with folders := _ } t).2.Housed _
    refine Catalogue.Housed.launch ⟨(hmono _).declarations, (hmono _).scans⟩ ?_
    exact Std.ExtTreeSet.mem_union_iff.2 (.inr (by simp [opens]))
  | rescan =>
    refine (hmono _).rescan fun t ht => Std.ExtTreeSet.mem_union_iff.2 (.inr ?_)
    exact Std.ExtTreeSet.mem_ofList.2 (List.contains_iff_mem.2 ht)
  | findOrCreate t name =>
    show (s.findOrCreate t name).catalogue.Housed _
    unfold System.findOrCreate
    split
    · exact hmono _
    · rename_i hmade
      refine (hmono _).findOrCreate hmade ?_
      exact Std.ExtTreeSet.mem_union_iff.2 (.inr (by simp [opens]))
  | remove t name =>
    exact ⟨fun key hkey => (hmono _).declarations key (Std.ExtTreeMap.mem_erase.1 hkey).2,
      (hmono _).scans⟩
  | setBlock handle block => exact ⟨(hmono _).declarations, (hmono _).scans⟩
  | advance index access => exact housed_advance hs h index access
  | leave index =>
    show (s.leave index).catalogue.Housed _
    unfold System.leave
    split
    · exact hmono _
    · exact (hmono _).of_tickets rfl (Catalogue.mem_tickets_workerExited _ false)
  | await t =>
    exact housed_become (hmono _) fun cat hcat =>
      ⟨(Catalogue.sameButTickets_awaitType hcat).agrees.store,
        Catalogue.mem_tickets_awaitType hcat⟩
  | awaitAll =>
    exact housed_become (hmono _) fun cat hcat =>
      ⟨(Catalogue.sameButTickets_joinCurrent hcat).agrees.store,
        Catalogue.mem_tickets_joinCurrent hcat⟩
  | joinEvery =>
    exact housed_become (hmono _) fun cat hcat =>
      ⟨(Catalogue.sameButTickets_joinEvery hcat).agrees.store,
        Catalogue.mem_tickets_joinEvery hcat⟩
  | connect t watcher => exact (hmono _).of_tickets rfl fun _ ht => ht
  | disconnect t id => exact (hmono _).of_tickets rfl fun _ ht => ht

/-- A system and the types that a store has been opened for. -/
structure WithStores where
  system : System := {}
  opened : TypeSet := ∅

namespace WithStores

/-- The system as it is found through the stores. -/
def found (s : WithStores) : System :=
  { s.system with catalogue := s.system.catalogue.within s.opened }

def perform (s : WithStores) (e : Event) : WithStores :=
  ⟨s.found.perform e, s.opened ∪ s.found.opens e⟩

/-- What a system comes to that starts without declarations and stores. -/
inductive Reachable : WithStores → Prop where
  | start (limits : ScanLimits) : Reachable { system := { catalogue := { limits } } }
  | perform {s : WithStores} (h : Reachable s) (e : Event) : Reachable (s.perform e)

variable {s : WithStores}

theorem Reachable.run (h : s.Reachable) (es : List Event) :
    (es.foldl WithStores.perform s).Reachable :=
  List.foldlRecOn (motive := Reachable) es _ h fun _ h e _ => h.perform e

theorem found_eq (h : s.system.catalogue.Housed s.opened) : s.found = s.system := by
  unfold found
  rw [h.within_eq]

/-- Every declaration and every scan of a reachable system has a store. -/
theorem Reachable.housed (h : s.Reachable) :
    s.system.Reachable ∧ s.system.catalogue.Housed s.opened := by
  induction h with
  | start limits =>
    exact ⟨.start limits, fun _ hkey => absurd hkey Std.ExtTreeMap.not_mem_empty,
      fun _ ht => absurd ht Std.ExtTreeMap.not_mem_empty⟩
  | perform _ e ih =>
    obtain ⟨hs, hhoused⟩ := ih
    unfold WithStores.perform
    rw [found_eq hhoused]
    exact ⟨hs.perform e, housed_perform hs.sound hhoused e⟩

theorem Reachable.found_eq (h : s.Reachable) : s.found = s.system :=
  WithStores.found_eq h.housed.2

/-- A run comes to the same as without the stores. -/
theorem Reachable.system_run (h : s.Reachable) (es : List Event) :
    (es.foldl WithStores.perform s).system = es.foldl System.perform s.system := by
  induction es generalizing s with
  | nil => rfl
  | cons e es ih =>
    have hsystem : (s.perform e).system = s.system.perform e :=
      congrArg (System.perform · e) h.found_eq
    rw [List.foldl_cons, List.foldl_cons, ih (h.perform e), hsystem]

end WithStores

end System

end AssetDecl
