import AssetDecl.Proofs.DeferredBlocks

/-!
# Overtaken blocks

Of several visited blocks with one key it is not always the last one that is stored. A block that
has to wait is overtaken by a later one whose type has a creator already, and replaces it when its
own keyword is bound (`System.overtaken_stored`). There is no other way: if the last block of a key
is not stored, another one is that it has overtaken (`System.last_stored_or_overtaken`).
-/

namespace AssetDecl

theorem getLast?_filter_of_pos {α : Type} {as : List α} {a : α} {q : α → Bool}
    (h : as.getLast? = some a) (ha : q a = true) : (as.filter q).getLast? = some a := by
  obtain ⟨before, rfl⟩ := List.getLast?_eq_some_iff.mp h
  rw [List.filter_append, List.filter_cons_of_pos ha, List.filter_nil, List.getLast?_concat]

/-! ## The last block of a key -/

section

variable {b b' : Bindings} {key : DeclKey} {last : WaitingBlock} {good good' : BlockSource → Prop}
  {waiting : List WaitingBlock} {source? : Option BlockSource}

theorem WaitingBlock.filter_goesTo (hb : b.Grows b') (key : DeclKey) (ps : List WaitingBlock) :
    ps.filter (goesTo b key) = (ps.filter (goesTo b' key)).filter (goesTo b key) := by
  rw [List.filter_filter]
  congr 1
  funext p
  rw [Bool.eq_iff_iff, Bool.and_eq_true]
  exact ⟨fun h => ⟨h, goesTo_grow hb h⟩, And.left⟩

/-- Where the last block of a key is: it is the last one of the key that waits, or it has arrived,
and since then all blocks of the key that are stored or wait are good. -/
inductive Arriving (b : Bindings) (key : DeclKey) (last : WaitingBlock)
    (good : BlockSource → Prop) (waiting : List WaitingBlock) (source? : Option BlockSource) : Prop
  | waits (h : (waiting.filter (WaitingBlock.goesTo b key)).getLast? = some last)
  | arrived {block : BlockSource} (hsource : source? = some block) (hblock : good block)
    (hwaiting : ∀ p ∈ waiting, p.goesTo b key → good p.block)

theorem Arriving.mono (h : Arriving b key last good waiting source?)
    (hgood : ∀ block, good block → good' block) :
    Arriving b key last good' waiting source? := by
  cases h with
  | waits h => exact .waits h
  | arrived hsource hblock hwaiting =>
    exact .arrived hsource (hgood _ hblock) fun p hp hgoes => hgood _ (hwaiting p hp hgoes)

/-- The waiting blocks are tried again. When this lets the last block arrive, those that still wait
have to be good. -/
theorem Arriving.retry (h : Arriving b' key last good waiting source?) (hb : b.Grows b')
    (hlast : good last.block) :
    let waiting' := waiting.filter fun p => b.meet p.need = none
    let source?' := ((waiting.filter (WaitingBlock.goesTo b key)).getLast?.map
      WaitingBlock.block).or source?
    (source?' = some last.block → ∀ p ∈ waiting', p.goesTo b' key → good p.block) →
    Arriving b' key last good waiting' source?' := by
  intro waiting' source?' hpassed
  cases h with
  | waits h =>
    obtain ⟨-, hgoes⟩ := List.mem_filter.mp (List.mem_of_getLast? h)
    cases hmeet : b.meet last.need with
    | none =>
      refine .waits ?_
      rw [List.filter_filter, List.filter_congr fun _ _ => Bool.and_comm _ _, ← List.filter_filter]
      exact getLast?_filter_of_pos h (decide_eq_true hmeet)
    | some t =>
      rw [WaitingBlock.goesTo_iff, hb.met _ _ hmeet] at hgoes
      have hnow : last.goesTo b key = true :=
        WaitingBlock.goesTo_iff.mpr ⟨hmeet.trans hgoes.1, hgoes.2⟩
      have hsource : source?' = some last.block := by
        unfold source?'
        rw [WaitingBlock.filter_goesTo hb, getLast?_filter_of_pos h hnow]
        rfl
      exact .arrived hsource hlast (hpassed hsource)
  | @arrived block hsource hblock hwaiting =>
    have hwaiting' : ∀ p ∈ waiting', p.goesTo b' key → good p.block := fun p hp =>
      hwaiting p (List.mem_filter.mp hp).1
    cases hnow : (waiting.filter (WaitingBlock.goesTo b key)).getLast? with
    | none =>
      have hsame : source?' = some block := by
        unfold source?'
        rw [hnow]
        exact hsource
      exact .arrived hsame hblock hwaiting'
    | some p =>
      obtain ⟨hp, hgoes⟩ := List.mem_filter.mp (List.mem_of_getLast? hnow)
      have hnew : source?' = some p.block := by
        unfold source?'
        rw [hnow]
        rfl
      exact .arrived hnew (hwaiting p hp (WaitingBlock.goesTo_grow hb hgoes)) hwaiting'

end

/-- The blocks to which the bindings give a key, where `t` is the default type. -/
def Visits.blocksOf (v : Visits) (b : Bindings) (t : DeclType) (key : DeclKey) :
    List BlockSource :=
  v.blocks.filter fun block => (WaitingBlock.ofBlock t block).goesTo b key

/-- A completed scan lets the last block of a key arrive, or leaves it waiting. -/
theorem Catalogue.Sole.arriving_installScan {cat : Catalogue} {t : DeclType} {f : Findings}
    {previous : FileSet} {v : Visits} {b : Bindings} {key : DeclKey} {last : BlockSource}
    {good : BlockSource → Prop} (h : cat.Sole t) (hs : cat.Sound)
    (hf : f.Gathers t cat.bindings v.blocks) (hb : cat.bindings.Grows b)
    (hkeeps : b.AllKeepBlocks) (hlast : (v.blocksOf b t key).getLast? = some last)
    (hgood : good last)
    (hpassing : last ∈ f.blocksOf key.declType → ∀ p ∈ f.waiting, p.goesTo b key → good p.block) :
    let after := (cat.installScan t previous f).1
    (after.store.source? key = some last → ∀ p ∈ after.waiting, p.goesTo b key → good p.block) →
    Arriving b key (.ofBlock t last) good after.waiting (after.store.source? key) := by
  intro after hpassed
  have hcreated : ∀ p ∈ f.assigned, (cat.bindings.typeCreator? p.1).isSome := fun p hp =>
    hs.bindings.isSome_of_meet (hf.meet_of_mem (Findings.mem_assigned.mp hp))
  have hwaiting : after.waiting = _ := h.waiting_installScan hcreated hs
  have hsource : after.store.source? key = _ :=
    h.held?_installScan hcreated hs (Aspect.source hkeeps) hb key
  have hfound : Arriving b key (.ofBlock t last) good f.waiting (f.lastBlock? key) := by
    rcases (hf.goesTo hb key).2 with htyped | hwaits
    · have htyped : f.lastBlock? key = some last := htyped.symm.trans hlast
      have hmem := List.mem_of_getLast? htyped
      exact .arrived htyped hgood (hpassing (List.mem_filter.mp hmem).1)
    · have hwaits := hwaits.symm.trans hlast
      rw [List.getLast?_map] at hwaits
      obtain ⟨p, hp, rfl⟩ := Option.map_eq_some_iff.mp hwaits
      have hmem := List.mem_of_getLast? hp
      obtain ⟨block, -, hblock⟩ := hf.exists_of_mem_waiting (List.mem_filter.mp hmem).1
      refine .waits ?_
      rw [hp, hblock]
      rfl
  have hsame : (f.lastBlock? key).map (Aspect.source hkeeps).ofBlock = f.lastBlock? key := by
    cases f.lastBlock? key <;> rfl
  rw [hsame] at hsource
  rw [hwaiting, hsource] at hpassed ⊢
  exact hfound.retry hb hgood hpassed

/-! ## Systems -/

namespace System

/-- The later one of two blocks has passed the earlier one, which waits: it has been found under its
type by the same scan, or is stored. -/
def Overtaken (t : DeclType) (key : DeclKey) (early late : BlockSource) (s : System) : Prop :=
  (∃ r ∈ s.scans, .ofBlock t early ∈ r.scan.found.waiting ∧
    late ∈ r.scan.found.blocksOf key.declType) ∨
  (s.scans = [] ∧ .ofBlock t early ∈ s.catalogue.waiting ∧
    s.catalogue.store.source? key = some late)

variable {access : FileAccess} {t : DeclType} {key : DeclKey} {b : Bindings} {v : Visits}
  {excused excused' : BlockSource → BlockSource → Prop} {s : System} {e : Event}

/-- The scan has ended, all its blocks are stored or wait, and the last one of the key is on its way
while all that have come after it are excused. -/
structure Placed (t : DeclType) (key : DeclKey) (b : Bindings) (v : Visits)
    (excused : (last block : BlockSource) → Prop) (s : System) : Prop where
  scans : s.scans = []
  all : s.catalogue.AccountsFor t v.blocks
  arriving : ∀ last, (v.blocksOf b t key).getLast? = some last →
    Arriving b key (.ofBlock t last) (excused last) s.catalogue.waiting
      (s.catalogue.store.source? key)

/-- Once the last block is stored, it has overtaken all that wait. -/
theorem excused_of_stored (last : BlockSource)
    (hnow : ∀ last, ∀ block ∈ v.blocksOf b t key, s.Overtaken t key block last →
      excused last block)
    (hscans : s.scans = []) (hall : s.catalogue.AccountsFor t v.blocks)
    (hstored : s.catalogue.store.source? key = some last) :
    ∀ p ∈ s.catalogue.waiting, p.goesTo b key → excused last p.block := by
  intro p hp hgoes
  obtain ⟨block, hblock, rfl⟩ := hall.waits p hp
  exact hnow last block (List.mem_filter.mpr ⟨hblock, hgoes⟩) (.inr ⟨hscans, hp, hstored⟩)

section

variable (hself : ∀ last ∈ v.blocksOf b t key, excused' last last)
  (hnow : ∀ last, ∀ block ∈ v.blocksOf b t key, (s.perform e).Overtaken t key block last →
    excused' last block)
  (hkeeps : b.AllKeepBlocks) (hb : s.catalogue.bindings.Grows b) (hs : s.Sound)
  (he : e.Continues access)

include hself hnow hkeeps hb hs he

theorem Placed.perform (h : s.Placed t key b v excused)
    (hmono : ∀ last block, excused last block → excused' last block) :
    (s.perform e).Placed t key b v excused' := by
  have hscans := scans_of_continues he h.scans
  have hall := accountsFor_of_continues h.all hs he h.scans
  refine ⟨hscans, hall, ?_⟩
  intro last hlast
  have hpassed := excused_of_stored last hnow hscans hall
  have harriving := (h.arriving last hlast).mono (hmono last)
  cases e with
  | bind keyword c =>
    show Arriving _ _ _ _ (s.bind keyword c).catalogue.waiting
      ((s.bind keyword c).catalogue.store.source? key)
    unfold System.bind
    split <;> exact harriving
  | retry =>
    have hretry : s.perform .retry = s.retry := rfl
    rw [hretry] at hpassed ⊢
    rw [System.retry_eq] at hpassed ⊢
    split
    · exact harriving
    · rename_i howed
      rw [if_neg howed] at hpassed
      have hsource : (s.catalogue.retryWaiting ∅).1.store.source? key = _ :=
        (Aspect.source hkeeps).held?_retryWaiting hb hs.catalogue ∅ key
      dsimp only at hpassed ⊢
      rw [Catalogue.waiting_retryWaiting hs.catalogue, hsource] at hpassed ⊢
      exact harriving.retry hb (hself last (List.mem_of_getLast? hlast)) hpassed
  | leave index =>
    show Arriving _ _ _ _ (s.leave index).catalogue.waiting
      ((s.leave index).catalogue.store.source? key)
    unfold System.leave
    split <;> exact harriving
  | advance index access' =>
    show Arriving _ _ _ _ (s.advance index access').catalogue.waiting
      ((s.advance index access').catalogue.store.source? key)
    rw [advance_of_no_scans h.scans]
    exact harriving
  | _ => exact absurd he id

/-- The scan stays under way, or ends. -/
theorem Scanning.perform_or_placed {r : StartedScan} {v' : Visits} (hsole : s.Sole t)
    (h : s.Scanning access (some v) r v')
    (hpassing : ∀ last, ∀ block ∈ v.blocksOf b t key, s.Overtaken t key block last →
      excused' last block) :
    (∃ r v', (s.perform e).Scanning access (some v) r v') ∨
      (s.perform e).Placed t key b v excused' := by
  cases e with
  | bind keyword c => exact .inl ⟨r, v', h.bind keyword c⟩
  | retry => exact .inl ⟨r, v', h.retry⟩
  | leave index => exact .inl ⟨r, v', h.leave index⟩
  | advance index access' =>
    obtain rfl : access' = access := he
    have htype := (hsole.scans r (by rw [h.scans]; simp)).defaultType
    have hperform : s.perform (.advance index access') = s.advance index access' := rfl
    rw [hperform] at hnow ⊢
    rcases h.advance index with ⟨r', v'', h', -⟩ | ⟨htotal, hscans, hcat⟩ | ⟨htotal, -, -⟩
    · exact .inl ⟨r', v'', h'⟩
    · obtain rfl := Option.some.inj htotal
      have hgathers := htype ▸ h.gathers.found
      rw [htype] at hcat
      have hall : (s.advance index access').catalogue.AccountsFor t v.blocks := by
        rw [hcat]
        exact hsole.catalogue.accountsFor_installScan hs.catalogue hgathers
      refine .inr ⟨hscans, hall, ?_⟩
      intro last hlast
      have hpassed := excused_of_stored last hnow hscans hall
      rw [hcat] at hpassed ⊢
      refine hsole.catalogue.arriving_installScan hs.catalogue hgathers hb hkeeps hlast
        (hself last (List.mem_of_getLast? hlast)) ?_ hpassed
      -- What waits when the last block has been found under its type has been overtaken.
      intro htyped p hp hgoes
      obtain ⟨block, hblock, rfl⟩ := hgathers.exists_of_mem_waiting hp
      refine hpassing last block (List.mem_filter.mpr ⟨hblock, hgoes⟩) (.inl ⟨r, ?_, hp, htyped⟩)
      rw [h.scans]
      exact List.mem_singleton_self r
    · simp at htotal
  | _ => exact absurd he id

end

/-- A block that may be stored in the place of the last one: it is the last one itself, or has been
overtaken by it after some of the events. -/
def Excused (s₁ : System) (t : DeclType) (key : DeclKey) (mine : List BlockSource)
    (es : List Event) (last block : BlockSource) : Prop :=
  block ∈ mine ∧ (block = last ∨
    ∃ es', es' <+: es ∧ (es'.foldl System.perform s₁).Overtaken t key block last)

theorem placed_run {s₁ : System} {r : StartedScan} {es : List Event} (key : DeclKey)
    (hsole : s₁.Sole t) (hs : s₁.Sound) (h : s₁.Scanning access (some v) r {})
    (hkeeps : b.AllKeepBlocks) (hes : ∀ e ∈ es, e.Continues access)
    (hb : (es.foldl System.perform s₁).catalogue.bindings.Grows b) :
    (∃ r v', (es.foldl System.perform s₁).Scanning access (some v) r v') ∨
      (es.foldl System.perform s₁).Placed t key b v
        (Excused s₁ t key (v.blocksOf b t key) es) := by
  induction es using List.reverseRecOn with
  | nil => exact .inl ⟨r, {}, h⟩
  | append_singleton es e ih =>
    have he := hes e (by simp)
    have hes : ∀ e ∈ es, e.Continues access := fun e he => hes e (List.mem_append_left _ he)
    have hperform : (es ++ [e]).foldl System.perform s₁ =
        (es.foldl System.perform s₁).perform e := by
      rw [List.foldl_append, List.foldl_cons, List.foldl_nil]
    have hgrows := hb
    rw [hperform, bindings_perform] at hgrows
    have hgrows := (he.grows _).trans hgrows
    have hsound := hs.run es
    have hself : ∀ last ∈ v.blocksOf b t key,
        Excused s₁ t key (v.blocksOf b t key) (es ++ [e]) last last := fun last hlast =>
      ⟨hlast, .inl rfl⟩
    have hnow : ∀ last, ∀ block ∈ v.blocksOf b t key,
        ((es.foldl System.perform s₁).perform e).Overtaken t key block last →
        Excused s₁ t key (v.blocksOf b t key) (es ++ [e]) last block := fun last block hblock h =>
      ⟨hblock, .inr ⟨es ++ [e], List.prefix_refl _, hperform ▸ h⟩⟩
    rw [hperform]
    rcases ih hes hgrows with ⟨r, v', hscanning⟩ | hplaced
    · have hpassing : ∀ last, ∀ block ∈ v.blocksOf b t key,
          (es.foldl System.perform s₁).Overtaken t key block last →
          Excused s₁ t key (v.blocksOf b t key) (es ++ [e]) last block := fun last block hblock h =>
        ⟨hblock, .inr ⟨es, List.prefix_append _ _, h⟩⟩
      exact hscanning.perform_or_placed hself hnow hkeeps hgrows hsound he
        (hsole.run fun e he => (hes e he).keepsTo t) hpassing
    · refine .inr (hplaced.perform hself hnow hkeeps hgrows hsound he ?_)
      rintro last block ⟨hmine, rfl | ⟨es', hprefix, hovertaken⟩⟩
      · exact ⟨hmine, .inl rfl⟩
      · exact ⟨hmine, .inr ⟨es', hprefix.trans (List.prefix_append _ _), hovertaken⟩⟩

theorem Sole.scanning_of_scans {r : StartedScan} (h : s.Sole t) (hs : s.Sound) (he : e.Scans t)
    (hidle : s.scans = []) (hstarts : (s.perform e).scans = [r]) (access : FileAccess) :
    (s.perform e).Scanning access (r.scan.visits access {}) r {} := by
  obtain ⟨cat, -, -, hlaunch⟩ := h.launch_of_scans hs he (by rw [hstarts, hidle]; rfl)
  obtain rfl : r = (cat.launch t).1 := (congrArg Prod.fst hlaunch).symm
  refine ⟨hstarts, ?_, ⟨rfl, .nothing _⟩, rfl⟩
  have hcat : (s.perform e).catalogue = (cat.launch t).2 := (congrArg Prod.snd hlaunch).symm
  rw [hcat]
  exact cat.isCurrent_launch t

/-- While the current scan of the only default type runs and afterwards, keywords are bound at any
moment. When all is done, a key without visited blocks is not stored. Otherwise the last visited
block of the key is stored, or one that it has overtaken after some of the events. -/
theorem last_stored_or_overtaken {limits : ScanLimits} {history es : List Event}
    {before s₁ : System} {r : StartedScan}
    (hbefore : before = history.foldl System.perform { catalogue := { limits } })
    (hhistory : ∀ e ∈ history, e.KeepsTo t) (hidle : before.scans = [])
    (hs₁ : s₁ = before.perform e) (he : e.Scans t) (hstarts : s₁.scans = [r])
    (hvisits : r.scan.visits access {} = some v)
    (hs : s = es.foldl System.perform s₁) (hes : ∀ e ∈ es, e.Continues access)
    (hended : s.scans = []) (hquiet : s.owed = 0) (hkeeps : s.catalogue.bindings.AllKeepBlocks)
    (key : DeclKey) :
    let mine := v.blocksOf s.catalogue.bindings t key
    (mine = [] → s.catalogue.store.source? key = none) ∧
    ∀ last, mine.getLast? = some last →
      ∃ block ∈ mine, s.catalogue.store.source? key = some block ∧
        (block = last ∨
          ∃ es', es' <+: es ∧ (es'.foldl System.perform s₁).Overtaken t key block last) := by
  intro mine
  have hbeforeSole : before.Sole t := hbefore ▸ (sole_start limits t).run hhistory
  have hreachable : before.Reachable := hbefore ▸ (Reachable.start limits).run history
  have hscanning : s₁.Scanning access (some v) r {} := by
    rw [← hvisits]
    subst hs₁
    exact hbeforeSole.scanning_of_scans hreachable.sound he hidle hstarts access
  have hs₁Sole : s₁.Sole t := hs₁ ▸ hbeforeSole.perform he.keepsTo
  have hs₁Reachable : s₁.Reachable := hs₁ ▸ hreachable.perform e
  have hsettled : s.catalogue.Settled :=
    (hs ▸ hs₁Reachable.run es : s.Reachable).sound.settled hquiet
  have hrun := placed_run key hs₁Sole hs₁Reachable.sound hscanning hkeeps hes
    (hs ▸ .refl _)
  rw [← hs] at hrun
  rcases hrun with ⟨r', v', hscanning⟩ | hplaced
  · simp [hscanning.scans] at hended
  constructor
  · intro hmine
    rw [Option.eq_none_iff_forall_ne_some]
    intro block hsource
    have hsome : (s.catalogue.store.stored? key).isSome := by
      rw [← Option.isSome_map, ← Store.source?, hsource]
      rfl
    obtain ⟨block, hblock, hgoes⟩ := hplaced.all.stored key hsome
    have hmem : block ∈ mine := List.mem_filter.mpr ⟨hblock, hgoes⟩
    rw [hmine] at hmem
    exact List.not_mem_nil hmem
  · intro last hlast
    cases hplaced.arriving last hlast with
    | waits h =>
      obtain ⟨hwaits, hgoes⟩ := List.mem_filter.mp (List.mem_of_getLast? h)
      rw [WaitingBlock.goesTo_iff, hsettled _ hwaits] at hgoes
      simp at hgoes
    | @arrived block hsource hblock hwaiting =>
      exact ⟨block, hblock.1, hsource, hblock.2⟩

/-- The block of the first file waits until both files have been scanned, and then replaces that of
the second one, which it has been overtaken by. -/
theorem last_stored_or_overtaken_stuff :
    let t : DeclType := ⟨"material"⟩
    let key : DeclKey := .of t "x"
    let access := FileAccess.ofTexts
      [("m/a.mtr", "stuff x { first }"), ("m/b.mtr", "material x { second }")]
    let before := List.foldl perform {} [.bind "material" (.plain t), .retry]
    let s₁ := before.perform (.addFolder t "m" "mtr")
    let r : StartedScan :=
      ⟨1, ∅, { defaultType := t, limits := {}, folders := [⟨"m/", ".mtr", t⟩] }⟩
    let es : List Event :=
      List.replicate 6 (.advance 0 access) ++ [.bind "Stuff" (.plain t), .retry]
    let s := es.foldl perform s₁
    s₁.scans = [r] ∧ s.scans = [] ∧ s.owed = 0 ∧ s.catalogue.bindings.AllKeepBlocks ∧
      ∃ v, r.scan.visits access {} = some v ∧
        let mine := v.blocksOf s.catalogue.bindings t key
        (mine = [] → s.catalogue.store.source? key = none) ∧
        ∀ last, mine.getLast? = some last →
          ∃ block ∈ mine, s.catalogue.store.source? key = some block ∧
            (block = last ∨
              ∃ es', es' <+: es ∧ (es'.foldl perform s₁).Overtaken t key block last) := by
  intro t key access before s₁ r es s
  have hstarts : s₁.scans = [r] := by
    unfold s₁ before r t
    rfl
  have hended : s.scans = [] := List.isEmpty_iff.mp (by decide +kernel)
  have hquiet : s.owed = 0 := by decide +kernel
  have hbound : s.catalogue.bindings.byKeyword =
      (Std.ExtTreeMap.insert ∅ "material" (.plain t)).insert "stuff" (.plain t) := by
    unfold s s₁ before
    rw [bindings_run, bindings_perform, bindings_run]
    rfl
  have hkeeps : s.catalogue.bindings.AllKeepBlocks := by
    intro k c hk name block
    rw [hbound, Std.ExtTreeMap.getElem?_insert, Std.ExtTreeMap.getElem?_insert] at hk
    split at hk
    · obtain rfl := Option.some.inj hk
      rfl
    · split at hk
      · obtain rfl := Option.some.inj hk
        rfl
      · simp at hk
  have hvisits : (r.scan.visits access {}).isSome := by decide +kernel
  obtain ⟨v, hv⟩ := Option.isSome_iff_exists.mp hvisits
  have hes : ∀ e ∈ es, e.Continues access := by
    simp [es, Event.Continues]
  have hbefore : ∀ e ∈ [Event.bind "material" (.plain t), .retry], e.KeepsTo t := by
    simp [Event.KeepsTo]
  have hscans : Event.Scans t (.addFolder t "m" "mtr") := rfl
  have hidle : before.scans = [] := rfl
  have hs₁ : s₁ = before.perform (.addFolder t "m" "mtr") := rfl
  have hs : s = es.foldl perform s₁ := rfl
  exact ⟨hstarts, hended, hquiet, hkeeps, v, hv,
    last_stored_or_overtaken rfl hbefore hidle hs₁ hscans hstarts hv hs hes hended hquiet hkeeps
      key⟩

/-- The block that is stored in the end is not the last one. -/
theorem overtaken_stored :
    let t : DeclType := ⟨"material"⟩
    let key : DeclKey := .of t "x"
    let access := FileAccess.ofTexts
      [("m/a.mtr", "stuff x { first }"), ("m/b.mtr", "material x { second }")]
    let s₁ := List.foldl perform {} [.bind "material" (.plain t), .retry, .addFolder t "m" "mtr"]
    let es : List Event :=
      List.replicate 6 (.advance 0 access) ++ [.bind "stuff" (.plain t), .retry]
    let s := es.foldl perform s₁
    s.scans = [] ∧ s.owed = 0 ∧
      ∃ v, (s₁.scans.head?.bind fun r => r.scan.visits access {}) = some v ∧
        ∃ last, (v.blocksOf s.catalogue.bindings t key).getLast? = some last ∧
          s.catalogue.store.source? key ≠ some last := by
  intro t key access s₁ es s
  have hended : s.scans = [] := List.isEmpty_iff.mp (by decide +kernel)
  have hquiet : s.owed = 0 := by decide +kernel
  have hlast : (((s₁.scans.head?.bind fun r => r.scan.visits access {}).bind fun v =>
      (v.blocksOf s.catalogue.bindings t key).getLast?).map BlockSource.contents) =
      some " second " := by decide +kernel
  have hstored : (s.catalogue.store.source? key).map BlockSource.contents = some " first " := by
    decide +kernel
  obtain ⟨last, hlast, hcontents⟩ := Option.map_eq_some_iff.mp hlast
  obtain ⟨v, hv, hlast⟩ := Option.bind_eq_some_iff.mp hlast
  refine ⟨hended, hquiet, v, hv, last, hlast, ?_⟩
  intro hsource
  rw [hsource, Option.map_some, hcontents] at hstored
  simp at hstored

end System

end AssetDecl
