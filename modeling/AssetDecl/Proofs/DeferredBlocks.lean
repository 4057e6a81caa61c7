import AssetDecl.Proofs.ScanUnderWay

/-!
# Deferred blocks

Once a scan is completed, every block that it has visited is stored under its key or waits
(`Catalogue.AccountsFor`). Binding keywords and trying the waiting blocks again keep it so, hence it
does not matter for what is stored and what waits whether keywords are bound before a scan, during
it or afterwards (`System.deferred_eq_early`).
-/

namespace AssetDecl

theorem WaitingBlock.goesTo_grow {b b' : Bindings} {key : DeclKey} {p : WaitingBlock}
    (hb : b.Grows b') (h : p.goesTo b key = true) : p.goesTo b' key = true := by
  rw [goesTo_iff] at h ⊢
  exact ⟨hb.met _ _ h.1, h.2⟩

theorem isSome_last_or {α β : Type} (as : List α) (q : α → Bool) (value : α → β)
    (other : Option β) :
    (((as.filter q).getLast?.map value).or other).isSome ↔ (∃ a ∈ as, q a) ∨ other.isSome := by
  rw [Option.isSome_or, Bool.or_eq_true, Option.isSome_map, List.getLast?_isSome, ne_eq,
    List.filter_eq_nil_iff]
  simp

namespace Catalogue

variable {cat cat' : Catalogue} {t : DeclType} {blocks : List BlockSource}

/-- What is stored and what waits are these blocks, found where `t` is the default type, and none of
them is missing. -/
structure AccountsFor (t : DeclType) (blocks : List BlockSource) (cat : Catalogue) : Prop where
  waits : ∀ p ∈ cat.waiting, ∃ block ∈ blocks, p = .ofBlock t block
  stored : ∀ key, (cat.store.stored? key).isSome →
    ∃ block ∈ blocks, (WaitingBlock.ofBlock t block).goesTo cat.bindings key
  kept : ∀ key, ∀ block ∈ blocks, (WaitingBlock.ofBlock t block).goesTo cat.bindings key →
    (cat.store.stored? key).isSome ∨ .ofBlock t block ∈ cat.waiting
  unmet : (cat.waiting.filter fun p => cat.bindings.meet p.need = none) =
    (blocks.map (WaitingBlock.ofBlock t)).filter fun p => cat.bindings.meet p.need = none

theorem accountsFor_fresh (t : DeclType) (limits : ScanLimits) :
    ({ limits } : Catalogue).AccountsFor t [] := by
  refine ⟨fun p hp => absurd hp List.not_mem_nil, ?_, ?_, rfl⟩
  · intro key h
    simp [Store.stored?] at h
  · exact fun key block hblock => absurd hblock List.not_mem_nil

theorem AccountsFor.of_agrees (h : cat.AccountsFor t blocks) (hagrees : cat.Agrees cat') :
    cat'.AccountsFor t blocks := by
  obtain ⟨hbindings, hwaiting, hstore⟩ := hagrees
  refine ⟨?_, ?_, ?_, ?_⟩
  · rw [hwaiting]
    exact h.waits
  · rw [hstore, hbindings]
    exact h.stored
  · rw [hstore, hbindings, hwaiting]
    exact h.kept
  · rw [hbindings, hwaiting]
    exact h.unmet

/-- A block that a new keyword gives a type has been waiting. -/
theorem AccountsFor.grow {b : Bindings} (h : cat.AccountsFor t blocks)
    (hb : cat.bindings.Grows b) : { cat with bindings := b }.AccountsFor t blocks := by
  refine ⟨h.waits, ?_, ?_, ?_⟩
  · intro key hstored
    obtain ⟨block, hblock, hgoes⟩ := h.stored key hstored
    exact ⟨block, hblock, WaitingBlock.goesTo_grow hb hgoes⟩
  · intro key block hblock hgoes
    cases hmeet : cat.bindings.meet (.of block.keyword t) with
    | none =>
      have hunmet : WaitingBlock.ofBlock t block ∈ cat.waiting.filter fun p =>
          cat.bindings.meet p.need = none := by
        rw [h.unmet, List.mem_filter]
        exact ⟨List.mem_map_of_mem hblock, decide_eq_true hmeet⟩
      exact .inr (List.mem_filter.mp hunmet).1
    | some t' =>
      rw [WaitingBlock.goesTo_iff, WaitingBlock.need_ofBlock, hb.met _ _ hmeet] at hgoes
      exact h.kept key block hblock (WaitingBlock.goesTo_iff.mpr ⟨hmeet.trans hgoes.1, hgoes.2⟩)
  · dsimp only
    rw [hb.filter_unmet, h.unmet, ← hb.filter_unmet]

theorem isSome_stored?_retryWaiting (h : cat.Sound) (changed : TypeSet) (key : DeclKey) :
    ((cat.retryWaiting changed).1.store.stored? key).isSome ↔
      (∃ p ∈ cat.waiting, p.goesTo cat.bindings key) ∨ (cat.store.stored? key).isSome := by
  have hheld := (Aspect.presence cat.bindings).held?_retryWaiting (.refl _) h changed key
  rw [← Option.isSome_map, ← Aspect.held?, hheld, isSome_last_or, Aspect.held?, Option.isSome_map]

theorem AccountsFor.retryWaiting (h : cat.AccountsFor t blocks) (hs : cat.Sound)
    (changed : TypeSet) : (cat.retryWaiting changed).1.AccountsFor t blocks := by
  have hwaiting := waiting_retryWaiting hs changed
  have hbindings : (cat.retryWaiting changed).1.bindings = cat.bindings := rfl
  refine ⟨?_, ?_, ?_, ?_⟩
  · intro p hp
    rw [hwaiting] at hp
    exact h.waits p (List.mem_filter.mp hp).1
  · intro key hstored
    rcases (isSome_stored?_retryWaiting hs changed key).mp hstored with ⟨p, hp, hgoes⟩ | hstored
    · obtain ⟨block, hblock, rfl⟩ := h.waits p hp
      exact ⟨block, hblock, hgoes⟩
    · exact h.stored key hstored
  · intro key block hblock hgoes
    left
    rw [isSome_stored?_retryWaiting hs]
    rcases h.kept key block hblock hgoes with hstored | hwaits
    · exact .inr hstored
    · exact .inl ⟨_, hwaits, hgoes⟩
  · rw [hwaiting, hbindings, List.filter_filter, ← h.unmet]
    simp only [Bool.and_self]

/-- A completed scan accounts for all that it has gathered. -/
theorem Sole.accountsFor_installScan {f : Findings} {previous : FileSet} (h : cat.Sole t)
    (hs : cat.Sound) (hf : f.Gathers t cat.bindings blocks) :
    (cat.installScan t previous f).1.AccountsFor t blocks := by
  have hcreated : ∀ p ∈ f.assigned, (cat.bindings.typeCreator? p.1).isSome := fun p hp =>
    hs.bindings.isSome_of_meet (hf.meet_of_mem (Findings.mem_assigned.mp hp))
  have hwaiting : (cat.installScan t previous f).1.waiting = _ := h.waiting_installScan hcreated hs
  have hbindings : (cat.installScan t previous f).1.bindings = cat.bindings := rfl
  have hstored : ∀ key, ((cat.installScan t previous f).1.store.stored? key).isSome ↔
      ∃ block ∈ blocks, (WaitingBlock.ofBlock t block).goesTo cat.bindings key := by
    intro key
    have hheld : (Aspect.presence cat.bindings).held? (cat.installScan t previous f).1.store key =
        _ := h.held?_installScan hcreated hs _ (.refl _) key
    have hmem := (hf.goesTo (.refl _) key).1
    rw [← Option.isSome_map, ← Aspect.held?, hheld, isSome_last_or, Option.isSome_map]
    constructor
    · rintro (⟨p, hp, hgoes⟩ | htyped)
      · obtain ⟨block, hblock, rfl⟩ := hf.exists_of_mem_waiting hp
        exact ⟨block, hblock, hgoes⟩
      · obtain ⟨block, hlast⟩ := Option.isSome_iff_exists.mp htyped
        have hvisited := (hmem block).mpr (.inl (List.mem_of_getLast? hlast))
        exact ⟨block, List.mem_filter.mp hvisited⟩
    · rintro ⟨block, hblock, hgoes⟩
      rcases (hmem block).mp (List.mem_filter.mpr ⟨hblock, hgoes⟩) with htyped | hwaits
      · right
        exact List.getLast?_isSome.mpr (List.ne_nil_of_mem htyped)
      · left
        obtain ⟨p, hp, -⟩ := List.mem_map.mp hwaits
        exact ⟨p, List.mem_filter.mp hp⟩
  refine ⟨?_, ?_, ?_, ?_⟩
  · intro p hp
    rw [hwaiting] at hp
    exact hf.exists_of_mem_waiting (List.mem_filter.mp hp).1
  · intro key hkey
    exact (hstored key).mp hkey
  · intro key block hblock hgoes
    exact .inl ((hstored key).mpr ⟨block, hblock, hgoes⟩)
  · rw [hwaiting, hbindings, List.filter_filter, ← hf.filter_waiting]
    simp only [Bool.and_self]

/-! ## Settled catalogues -/

theorem AccountsFor.waiting_eq (h : cat.AccountsFor t blocks) (hsettled : cat.Settled) :
    cat.waiting = (blocks.map (WaitingBlock.ofBlock t)).filter fun p =>
      cat.bindings.meet p.need = none := by
  rw [← h.unmet, List.filter_eq_self.mpr]
  intro p hp
  exact decide_eq_true (hsettled p hp)

theorem AccountsFor.isSome_stored?_iff (h : cat.AccountsFor t blocks) (hsettled : cat.Settled)
    (key : DeclKey) : (cat.store.stored? key).isSome ↔
      ∃ block ∈ blocks, (WaitingBlock.ofBlock t block).goesTo cat.bindings key := by
  constructor
  · exact h.stored key
  · rintro ⟨block, hblock, hgoes⟩
    refine (h.kept key block hblock hgoes).resolve_right fun hwaits => ?_
    rw [WaitingBlock.goesTo_iff, hsettled _ hwaits] at hgoes
    simp at hgoes

end Catalogue

/-! ## Systems -/

namespace System

variable {access : FileAccess} {t : DeclType} {total : Option Visits} {s : System}

/-! ### Keywords bound in any order -/

def Event.binding? : Event → Option KeywordBinding
  | .bind keyword c => some ⟨keyword, c⟩
  | _ => none

/-- The bindings that are made by some events, in their order. -/
def bindingsOf (es : List Event) : List KeywordBinding :=
  es.filterMap Event.binding?

/-- Each keyword is bound and the waiting blocks are tried again. -/
def registrations (ks : List KeywordBinding) : List Event :=
  ks.flatMap fun k => [.bind k.keyword k.creator, .retry]

theorem registers_registrations (ks : List KeywordBinding) :
    ∀ e ∈ registrations ks, e.Registers := by
  intro e he
  obtain ⟨k, -, he⟩ := List.mem_flatMap.mp he
  rcases List.mem_pair.mp he with rfl | rfl <;> trivial

theorem bindingsOf_registrations (ks : List KeywordBinding) :
    bindingsOf (registrations ks) = ks := by
  induction ks with
  | nil => rfl
  | cons k ks ih => exact congrArg (k :: ·) ih

theorem rebind_eq_self {e : Event} (he : e.binding? = none)
    (hkeeps : ∀ keyword order, e ≠ .unbind keyword order) (b : Bindings) : e.rebind b = b := by
  cases e with
  | bind keyword c => simp [Event.binding?] at he
  | unbind keyword order => exact absurd rfl (hkeeps keyword order)
  | _ => rfl

/-- Where no keyword is bound twice, up to the case of ASCII letters, every one is bound. -/
theorem binds_run {es : List Event}
    (hkeeps : ∀ e ∈ es, ∀ keyword order, e ≠ .unbind keyword order)
    (hapart : ((bindingsOf es).map KeywordBinding.key).Nodup) :
    (es.foldl Event.rebind {}).Binds (bindingsOf es) := by
  induction es using List.reverseRecOn with
  | nil => exact Bindings.binds_empty
  | append_singleton es e ih =>
    have hbindings : bindingsOf (es ++ [e]) = bindingsOf es ++ e.binding?.toList := by
      rw [bindingsOf, List.filterMap_append]
      cases he : e.binding? <;> simp [he, bindingsOf]
    rw [hbindings, List.map_append, List.nodup_append] at hapart
    have ih := ih (fun e he => hkeeps e (List.mem_append_left _ he)) hapart.1
    rw [hbindings, List.foldl_append, List.foldl_cons, List.foldl_nil]
    cases he : e.binding? with
    | none =>
      rw [rebind_eq_self he (hkeeps e (by simp)), Option.toList_none, List.append_nil]
      exact ih
    | some k =>
      have hnew : k.key ∉ (bindingsOf es).map KeywordBinding.key := by
        intro hmem
        rw [he] at hapart
        exact hapart.2.2 _ hmem k.key (by simp) rfl
      obtain ⟨b, hb, hbinds⟩ := ih.bindKeyword hnew
      cases e with
      | bind keyword c =>
        obtain rfl := Option.some.inj he
        rw [Event.rebind_bind hb]
        exact hbinds
      | _ => simp [Event.binding?] at he

theorem owed_registrations {s : System} (howed : s.owed = 0) (ks : List KeywordBinding) :
    ((registrations ks).foldl perform s).owed = 0 := by
  induction ks generalizing s with
  | nil => exact howed
  | cons k ks ih =>
    refine ih (s := (s.bind k.keyword k.creator).retry) ?_
    unfold System.bind
    split
    · rw [System.retry_eq]
      rw [if_pos howed, howed]
    · rw [System.retry_eq]
      rw [if_neg (Nat.succ_ne_zero _)]
      exact howed

theorem owed_advances {s : System} (n index : Nat) (access : FileAccess) :
    ((List.replicate n (.advance index access)).foldl perform s).owed = s.owed := by
  refine List.foldlRecOn (motive := fun s' : System => s'.owed = s.owed) _ _ rfl ?_
  intro s' hs' e he
  rw [← hs', List.eq_of_mem_replicate he]
  show (s'.advance index access).owed = s'.owed
  rw [System.advance_eq]
  split
  · rfl
  · split <;> rfl

/-! ### A scan and its deferred blocks -/

/-- All the blocks of a scan; none if it dies. -/
def gathered (total : Option Visits) : List BlockSource :=
  (total.map Visits.blocks).getD []

/-- The scan is under way and nothing is stored or waits yet, or it has ended and all its blocks are
stored or wait. -/
inductive Deferring (access : FileAccess) (t : DeclType) (total : Option Visits) (s : System) : Prop
  | running {r : StartedScan} {v : Visits} (h : s.Scanning access total r v)
    (hnone : s.catalogue.AccountsFor t []) : Deferring access t total s
  | ended (hscans : s.scans = []) (hall : s.catalogue.AccountsFor t (gathered total)) :
    Deferring access t total s

theorem accountsFor_bind {blocks : List BlockSource} (h : s.catalogue.AccountsFor t blocks)
    (keyword : String) (c : Creator) : (s.bind keyword c).catalogue.AccountsFor t blocks := by
  unfold System.bind
  split
  · exact h
  · rename_i hb
    exact h.grow (Bindings.grows_bindKeyword hb)

theorem accountsFor_retry {blocks : List BlockSource} (h : s.catalogue.AccountsFor t blocks)
    (hs : s.Sound) : s.retry.catalogue.AccountsFor t blocks := by
  rw [System.retry_eq]
  split
  · exact h
  · exact h.retryWaiting hs.catalogue ∅

theorem accountsFor_leave {blocks : List BlockSource} (h : s.catalogue.AccountsFor t blocks)
    (index : Nat) : (s.leave index).catalogue.AccountsFor t blocks := by
  unfold System.leave
  split
  · exact h
  · exact h.of_agrees (Catalogue.agrees_workerExited _ _ _)

theorem accountsFor_of_continues {blocks : List BlockSource}
    (h : s.catalogue.AccountsFor t blocks) (hs : s.Sound) {e : Event} (he : e.Continues access)
    (hscans : s.scans = []) : (s.perform e).catalogue.AccountsFor t blocks := by
  cases e with
  | bind keyword c => exact accountsFor_bind h keyword c
  | retry => exact accountsFor_retry h hs
  | leave index => exact accountsFor_leave h index
  | advance index access' =>
    show (s.advance index access').catalogue.AccountsFor t blocks
    rw [advance_of_no_scans hscans]
    exact h
  | _ => exact absurd he id

theorem Deferring.perform (h : s.Deferring access t total) (hsole : s.Sole t) (hs : s.Sound)
    {e : Event} (he : e.Continues access) : (s.perform e).Deferring access t total := by
  cases h with
  | running h hnone =>
    cases e with
    | bind keyword c => exact .running (h.bind keyword c) (accountsFor_bind hnone keyword c)
    | retry => exact .running h.retry (accountsFor_retry hnone hs)
    | leave index => exact .running (h.leave index) (accountsFor_leave hnone index)
    | advance index access' =>
      obtain rfl : access' = access := he
      rename_i r v
      have htype := (hsole.scans r (by rw [h.scans]; simp)).defaultType
      rcases h.advance index with ⟨r', v', h', hcat⟩ | ⟨htotal, hscans, hcat⟩ |
        ⟨htotal, hscans, hcat⟩
      · exact .running h' (hcat ▸ hnone)
      · refine .ended hscans ?_
        show (s.advance index access').catalogue.AccountsFor t _
        rw [hcat, htotal, htype]
        exact hsole.catalogue.accountsFor_installScan hs.catalogue (htype ▸ h.gathers.found)
      · refine .ended hscans ?_
        show (s.advance index access').catalogue.AccountsFor t _
        rw [hcat, htotal]
        exact hnone.of_agrees (Catalogue.agrees_workerExited _ _ _)
    | _ => exact absurd he id
  | ended hscans hall =>
    exact .ended (scans_of_continues he hscans) (accountsFor_of_continues hall hs he hscans)

theorem Deferring.of_ended (h : s.Deferring access t total) (hscans : s.scans = []) :
    s.catalogue.AccountsFor t (gathered total) := by
  cases h with
  | running h hnone => simp [h.scans] at hscans
  | ended _ hall => exact hall

theorem Deferring.run (h : s.Deferring access t total) (hsole : s.Sole t) (hs : s.Sound)
    {es : List Event} (hes : ∀ e ∈ es, e.Continues access) :
    (es.foldl System.perform s).Deferring access t total := by
  have hrun : (es.foldl System.perform s).Deferring access t total ∧
      (es.foldl System.perform s).Sole t ∧ (es.foldl System.perform s).Sound := by
    refine List.foldlRecOn (motive := fun s : System =>
      s.Deferring access t total ∧ s.Sole t ∧ s.Sound) es _ ⟨h, hsole, hs⟩ ?_
    rintro s ⟨h, hsole, hs⟩ e he
    exact ⟨h.perform hsole hs (hes e he), hsole.perform ((hes e he).keepsTo t), hs.perform e⟩
  exact hrun.1

theorem accountsFor_registers (t : DeclType) (limits : ScanLimits) {es : List Event}
    (hes : ∀ e ∈ es, e.Registers) :
    (es.foldl perform { catalogue := { limits } }).catalogue.AccountsFor t [] := by
  have hrun : (es.foldl perform { catalogue := { limits } }).Sound ∧
      (es.foldl perform { catalogue := { limits } }).catalogue.AccountsFor t [] := by
    refine List.foldlRecOn (motive := fun s : System => s.Sound ∧ s.catalogue.AccountsFor t [])
      es perform ⟨sound_start limits, Catalogue.accountsFor_fresh t limits⟩ ?_
    rintro s ⟨hs, hnone⟩ e he
    refine ⟨hs.perform e, ?_⟩
    have he := hes e he
    cases e with
    | bind keyword c => exact accountsFor_bind hnone keyword c
    | retry => exact accountsFor_retry hnone hs
    | _ => exact absurd he id
  exact hrun.2

/-! ### Runs with one scan -/

/-- A fresh system after some events, a folder that is added and scanned, and more events. -/
def scanOnce (limits : ScanLimits) (t : DeclType) (folder extension : String)
    (before after : List Event) : System :=
  (before ++ .addFolder t folder extension :: after).foldl perform { catalogue := { limits } }

section

variable (limits : ScanLimits) (folder extension : String) {before after : List Event}

theorem sound_scanOnce (t : DeclType) (before after : List Event) :
    (scanOnce limits t folder extension before after).Sound :=
  ((Reachable.start limits).run _).sound

variable (hbefore : ∀ e ∈ before, e.Registers) (hafter : ∀ e ∈ after, e.Continues access)

include hbefore hafter

/-- The scan defers what it cannot install. -/
theorem deferring_scanOnce :
    let scan : Scan := { defaultType := t, limits, folders := [.normalized t folder extension] }
    (scanOnce limits t folder extension before after).Deferring access t
      (scan.visits access {}) := by
  intro scan
  obtain ⟨hsole, hsound, hfolders, hlimits, hscans⟩ := start_of_registers limits []
    (t := t) (fun _ hfolder => absurd hfolder List.not_mem_nil) hbefore
  have hnone := accountsFor_registers t limits hbefore
  unfold scanOnce
  rw [List.foldl_append, List.foldl_cons]
  generalize before.foldl perform { catalogue := { limits } } = s at *
  have hscan : (s.catalogue.addFolder t folder extension).1.scan = scan := by
    simp [Catalogue.addFolder, Catalogue.launch, DeclFolder.normalized, hfolders, hlimits, scan]
  have hstart := scanning_addFolder hscans access t folder extension
  dsimp only at hstart
  rw [hscan] at hstart
  have hdeferring : (s.perform (.addFolder t folder extension)).Deferring access t
      (scan.visits access {}) :=
    .running hstart (hnone.of_agrees (Catalogue.agrees_addFolder _ _ _ _))
  exact hdeferring.run (hsole.perform rfl) (hsound.perform _) hafter

theorem binds_scanOnce (t : DeclType)
    (hapart : ((bindingsOf (before ++ after)).map KeywordBinding.key).Nodup) :
    (scanOnce limits t folder extension before after).catalogue.bindings.Binds
      (bindingsOf (before ++ after)) := by
  have hsame : bindingsOf (before ++ .addFolder t folder extension :: after) =
      bindingsOf (before ++ after) := by
    unfold bindingsOf
    rw [List.filterMap_append, List.filterMap_append, List.filterMap_cons_none rfl]
  unfold scanOnce
  rw [bindings_run, ← hsame]
  refine binds_run ?_ (hsame ▸ hapart)
  intro e he keyword order hunbind
  subst hunbind
  rcases List.mem_append.mp he with he | he
  · exact hbefore _ he
  · rcases List.mem_cons.mp he with he | he
    · simp at he
    · exact hafter _ he

/-- Two runs that bind the same keywords leave the same, whenever they bind them. -/
theorem scanOnce_congr (t : DeclType) {before' after' : List Event}
    (hbefore' : ∀ e ∈ before', e.Registers) (hafter' : ∀ e ∈ after', e.Continues access)
    (hapart : ((bindingsOf (before ++ after)).map KeywordBinding.key).Nodup)
    (hperm : (bindingsOf (before ++ after)).Perm (bindingsOf (before' ++ after'))) :
    let s := scanOnce limits t folder extension before after
    let s' := scanOnce limits t folder extension before' after'
    s.scans = [] → s.owed = 0 → s'.scans = [] → s'.owed = 0 →
    (∀ key, key ∈ s.catalogue.store.entries ↔ key ∈ s'.catalogue.store.entries) ∧
      s.catalogue.waiting = s'.catalogue.waiting := by
  intro s s' hended hquiet hended' hquiet'
  have hs : s.Sound := sound_scanOnce limits folder extension t before after
  have hs' : s'.Sound := sound_scanOnce limits folder extension t before' after'
  have hmeet := (binds_scanOnce limits folder extension hbefore hafter t hapart).meet_eq
    (binds_scanOnce limits folder extension hbefore' hafter' t ((hperm.map _).nodup_iff.mp hapart))
    hperm hs.catalogue.bindings hs'.catalogue.bindings
  have hall := (deferring_scanOnce (t := t) limits folder extension hbefore hafter).of_ended hended
  have hall' :=
    (deferring_scanOnce (t := t) limits folder extension hbefore' hafter').of_ended hended'
  constructor
  · intro key
    rw [hs.catalogue.store.mem_entries_iff, hs'.catalogue.store.mem_entries_iff,
      hall.isSome_stored?_iff (hs.settled hquiet), hall'.isSome_stored?_iff (hs'.settled hquiet'),
      WaitingBlock.goesTo_congr hmeet]
  · rw [hall.waiting_eq (hs.settled hquiet), hall'.waiting_eq (hs'.settled hquiet')]
    simp only [hmeet]

end

theorem exists_scanOnce_ended (limits : ScanLimits) (t : DeclType) (folder extension : String)
    (access : FileAccess) (ks : List KeywordBinding) :
    ∃ n,
      let early := scanOnce limits t folder extension (registrations ks)
        (List.replicate n (.advance 0 access))
      early.scans = [] ∧ early.owed = 0 := by
  obtain ⟨-, -, -, -, hscans⟩ := start_of_registers limits [] (t := t)
    (fun _ hfolder => absurd hfolder List.not_mem_nil) (registers_registrations ks)
  obtain ⟨n, hn, -⟩ := exists_advances access
    (scanning_addFolder hscans access t folder extension).scans
  refine ⟨n, ?_⟩
  unfold scanOnce
  rw [List.foldl_append, List.foldl_cons]
  exact ⟨hn, (owed_advances n 0 access).trans (owed_registrations rfl ks)⟩

/-- A folder of a fresh catalogue is scanned once, and keywords are bound at any moment, before the
scan, between two of its steps or afterwards. When the scan has ended and no try is owed, the same
keys are stored and the same blocks wait in the same order as if all keywords had been bound, in any
order, before the scan. -/
theorem deferred_eq_early {limits : ScanLimits} {folder extension : String}
    {before after : List Event} {ks : List KeywordBinding}
    (hs : s = scanOnce limits t folder extension before after)
    (hbefore : ∀ e ∈ before, e.Registers) (hafter : ∀ e ∈ after, e.Continues access)
    (hapart : ((bindingsOf (before ++ after)).map KeywordBinding.key).Nodup)
    (hended : s.scans = []) (hquiet : s.owed = 0) (hks : ks.Perm (bindingsOf (before ++ after))) :
    ∃ n,
      let early := scanOnce limits t folder extension (registrations ks)
        (List.replicate n (.advance 0 access))
      early.scans = [] ∧ early.owed = 0 ∧
      (∀ key, key ∈ s.catalogue.store.entries ↔ key ∈ early.catalogue.store.entries) ∧
      s.catalogue.waiting = early.catalogue.waiting := by
  subst hs
  obtain ⟨n, hearly, howed⟩ := exists_scanOnce_ended limits t folder extension access ks
  have hadvances : ∀ e ∈ List.replicate n (Event.advance 0 access), e.Continues access := by
    intro e he
    rw [List.eq_of_mem_replicate he]
    rfl
  have hbindings : bindingsOf (registrations ks ++ List.replicate n (Event.advance 0 access)) =
      ks := by
    have hnone : bindingsOf (List.replicate n (Event.advance 0 access)) = [] :=
      List.filterMap_replicate_of_none rfl
    rw [bindingsOf, List.filterMap_append, ← bindingsOf, ← bindingsOf, hnone,
      bindingsOf_registrations, List.append_nil]
  exact ⟨n, hearly, howed, scanOnce_congr limits folder extension hbefore hafter t
    (registers_registrations ks) hadvances hapart (hbindings.symm ▸ hks.symm) hended hquiet hearly
    howed⟩

/-- Three keywords are bound, one before the scan, one between its files and one afterwards. One
block is left waiting. -/
theorem deferred_eq_early_shader :
    let t : DeclType := ⟨"material"⟩
    let sound : DeclType := ⟨"sound"⟩
    let access := FileAccess.ofTexts
      [("m/a.mtr", "stone {} Sound noise {} shader light {}"),
        ("m/b.mtr", "sound Noise {} fx glow {}")]
    let before : List Event := [.bind "Sound" (.plain sound), .retry]
    let after : List Event :=
      [.advance 0 access, .advance 0 access, .bind "material" (.plain t), .retry] ++
        List.replicate 4 (.advance 0 access) ++ [.bind "SHADER" (.plain t), .leave 0, .retry]
    let ks : List KeywordBinding :=
      [⟨"SHADER", .plain t⟩, ⟨"material", .plain t⟩, ⟨"Sound", .plain sound⟩]
    let s := scanOnce {} t "m" "mtr" before after
    s.scans = [] ∧ s.owed = 0 ∧
      s.catalogue.store.entries.keys = [.of t "light", .of t "stone", .of sound "noise"] ∧
      (s.catalogue.waiting.map fun p => p.block.name) = ["glow"] ∧
      ∃ n,
        let early := scanOnce {} t "m" "mtr" (registrations ks)
          (List.replicate n (.advance 0 access))
        early.scans = [] ∧ early.owed = 0 ∧
        (∀ key, key ∈ s.catalogue.store.entries ↔ key ∈ early.catalogue.store.entries) ∧
        s.catalogue.waiting = early.catalogue.waiting := by
  intro t sound access before after ks s
  have hended : s.scans = [] := List.isEmpty_iff.mp (by decide +kernel)
  have hquiet : s.owed = 0 := by decide +kernel
  have hkeys : s.catalogue.store.entries.keys =
      [.of t "light", .of t "stone", .of sound "noise"] := by
    decide +kernel
  have hwaiting : (s.catalogue.waiting.map fun p => p.block.name) = ["glow"] := by decide +kernel
  have hbefore : ∀ e ∈ before, e.Registers := by
    simp [before, Event.Registers]
  have hafter : ∀ e ∈ after, e.Continues access := by
    simp [after, Event.Continues]
  have hbindings : bindingsOf (before ++ after) =
      [⟨"Sound", .plain sound⟩, ⟨"material", .plain t⟩, ⟨"SHADER", .plain t⟩] := rfl
  have hapart : ((bindingsOf (before ++ after)).map KeywordBinding.key).Nodup := by
    rw [hbindings]
    decide
  have hks : ks.Perm (bindingsOf (before ++ after)) := by
    rw [hbindings]
    exact List.reverse_perm [_, _, _]
  exact ⟨hended, hquiet, hkeys, hwaiting,
    deferred_eq_early rfl hbefore hafter hapart hended hquiet hks⟩

end System

end AssetDecl
