import AssetDecl.Catalogue.Run
import AssetDecl.Proofs.InstalledScan

/-!
# Catalogues in use

A `System` is a catalogue that several threads use while its scans are under way. It moves by single
events, each of which is done in one go: a scan takes one step, and binding a keyword and trying the
waiting blocks again are two events. In every reachable system the catalogue is sound, and it is
settled unless some bindings still owe a try (`Reachable.sound`). What a scan that is completed then
does to the store, the waiting blocks and the visited files is known exactly.
-/

namespace AssetDecl

structure System where
  catalogue : Catalogue := {}
  /-- The scans under way. -/
  scans : List StartedScan := []
  /-- Completed scans whose workers still run callbacks. -/
  leaving : List StartedScan := []
  /-- Bindings that have been made and not been followed by a try of the waiting blocks. -/
  owed : Nat := 0

namespace System

/-! ## Events -/

inductive Event where
  | bind (keyword : String) (c : Creator)
  /-- The waiting blocks are tried again, as every binding is followed by. -/
  | retry
  /-- The keywords that are left are looked through in some order. -/
  | unbind (keyword : String) (order : TableOrder String)
  | addFolder (t : DeclType) (folder extension : String)
  | rescan
  | findOrCreate (t : DeclType) (name : String)
  | remove (t : DeclType) (name : String)
  /-- Somebody replaces the source of a declaration, which may have been removed. -/
  | setBlock (handle : Handle) (block : BlockSource)
  /-- A scan takes a step on the files as they are now, and is completed by the last one. -/
  | advance (index : Nat) (access : FileAccess)
  /-- The worker of a completed scan ends. -/
  | leave (index : Nat)
  | await (t : DeclType)
  | awaitAll
  | joinEvery
  | connect (t : DeclType) (watcher : Watcher)
  | disconnect (t : DeclType) (id : Nat)

/-- Binds a keyword, and owes a try. -/
def bind (s : System) (keyword : String) (c : Creator) : System :=
  match s.catalogue.bindings.bindKeyword keyword c with
  | .error _ => s
  | .ok bindings => { s with catalogue := { s.catalogue with bindings }, owed := s.owed + 1 }

/-- Tries the waiting blocks again, if that is owed. The types that change are told. -/
def retryTelling (s : System) : System × TypeSet :=
  if s.owed = 0 then (s, ∅)
  else
    let tried := s.catalogue.retryWaiting ∅
    ({ s with catalogue := tried.1, owed := s.owed - 1 }, tried.2)

def retry (s : System) : System :=
  s.retryTelling.1

def unbind (s : System) (keyword : String) (order : TableOrder String) : System :=
  match s.catalogue.unbindType keyword order with
  | .error _ => s
  | .ok catalogue => { s with catalogue }

def findOrCreate (s : System) (t : DeclType) (name : String) : System :=
  match s.catalogue.findOrCreate t name with
  | .error _ => s
  | .ok (_, catalogue) => { s with catalogue }

def setBlock (s : System) (handle : Handle) (block : BlockSource) : System :=
  { s with catalogue := { s.catalogue with store := s.catalogue.store.setBlock handle block } }

/-- Moves a scan by one step. The types that change are told. -/
def advanceTelling (s : System) (index : Nat) (access : FileAccess) : System × TypeSet :=
  match s.scans[index]? with
  | none => (s, ∅)
  | some r =>
    match r.scan.step access s.catalogue.bindings with
    | .running scan => ({ s with scans := s.scans.set index { r with scan } }, ∅)
    | .finished found =>
      let completed := s.catalogue.completeScan r found
      ({ s with
          catalogue := completed.1
          scans := s.scans.eraseIdx index
          leaving := s.leaving ++ [r] }, completed.2)
    | .crashed =>
      ({ s with catalogue := s.catalogue.workerExited r true, scans := s.scans.eraseIdx index }, ∅)

def advance (s : System) (index : Nat) (access : FileAccess) : System :=
  (s.advanceTelling index access).1

def leave (s : System) (index : Nat) : System :=
  match s.leaving[index]? with
  | none => s
  | some r =>
    { s with catalogue := s.catalogue.workerExited r false, leaving := s.leaving.eraseIdx index }

/-- The system with scans started. -/
def start (s : System) : List StartedScan × Catalogue → System
  | (started, catalogue) => { s with catalogue, scans := s.scans ++ started }

/-- The system with another catalogue, if there is one. -/
def become (s : System) (catalogue : Option Catalogue) : System :=
  { s with catalogue := catalogue.getD s.catalogue }

theorem retry_eq (s : System) :
    s.retry = if s.owed = 0 then s
      else { s with catalogue := (s.catalogue.retryWaiting ∅).1, owed := s.owed - 1 } := by
  unfold retry retryTelling
  split <;> rfl

theorem advance_eq (s : System) (index : Nat) (access : FileAccess) :
    s.advance index access = match s.scans[index]? with
      | none => s
      | some r =>
        match r.scan.step access s.catalogue.bindings with
        | .running scan => { s with scans := s.scans.set index { r with scan } }
        | .finished found =>
          { s with
            catalogue := (s.catalogue.completeScan r found).1
            scans := s.scans.eraseIdx index
            leaving := s.leaving ++ [r] }
        | .crashed =>
          { s with catalogue := s.catalogue.workerExited r true
                   scans := s.scans.eraseIdx index } := by
  unfold advance advanceTelling
  split
  · rfl
  · split <;> rfl

/-- What an event makes of a system, and the types whose callbacks are run for it. What fails or
would have to wait changes nothing. -/
def act (s : System) : Event → System × TypeSet
  | .bind keyword c => (s.bind keyword c, ∅)
  | .retry => s.retryTelling
  | .unbind keyword order => (s.unbind keyword order, ∅)
  | .addFolder t folder extension =>
    let (started, catalogue) := s.catalogue.addFolder t folder extension
    (s.start ([started], catalogue), ∅)
  | .rescan => (s.start s.catalogue.rescan, ∅)
  | .findOrCreate t name => (s.findOrCreate t name, ∅)
  | .remove t name => (s.become (s.catalogue.remove t name).2, ∅)
  | .setBlock handle block => (s.setBlock handle block, ∅)
  | .advance index access => s.advanceTelling index access
  | .leave index => (s.leave index, ∅)
  | .await t => (s.become (s.catalogue.awaitType t), ∅)
  | .awaitAll => (s.become s.catalogue.awaitAll, ∅)
  | .joinEvery => (s.become ((s.catalogue.joinEvery .listed).map Prod.snd), ∅)
  | .connect t watcher => (s.become (s.catalogue.connect t watcher).2, ∅)
  | .disconnect t id => (s.become (s.catalogue.disconnect t id).2, ∅)

/-- The system after an event. -/
def perform (s : System) (e : Event) : System :=
  (s.act e).1

/-- The types of which an event changes declarations, whose callbacks are run then. -/
def changes (s : System) (e : Event) : TypeSet :=
  (s.act e).2

/-- What a system comes to that starts without declarations. -/
inductive Reachable : System → Prop where
  | start (limits : ScanLimits) : Reachable { catalogue := { limits } }
  | perform {s : System} (h : Reachable s) (e : Event) : Reachable (s.perform e)

theorem Reachable.run {s : System} (h : s.Reachable) (es : List Event) :
    (es.foldl System.perform s).Reachable := by
  induction es generalizing s with
  | nil => exact h
  | cons e es ih => exact ih (h.perform e)

/-- Binding a keyword in one go is binding it and trying the waiting blocks again. -/
theorem retry_bind {s : System} {keyword : String} {c : Creator} {cat : Catalogue}
    {changed : TypeSet} (h : s.catalogue.bindType keyword c = .ok (cat, changed)) :
    (s.bind keyword c).retry = { s with catalogue := cat } := by
  cases hb : s.catalogue.bindings.bindKeyword keyword c with
  | error e =>
    rw [Catalogue.bindType, hb] at h
    simp at h
  | ok bindings =>
    rw [Catalogue.bindType, hb] at h
    have hbind : s.bind keyword c =
        { s with catalogue := { s.catalogue with bindings }, owed := s.owed + 1 } := by
      rw [bind, hb]
    rw [hbind, retry_eq, if_neg (Nat.succ_ne_zero _)]
    dsimp only
    rw [Except.ok.inj h, Nat.add_sub_cancel]

end System

/-! ## Events that leave blocks and declarations alone -/

namespace Catalogue

variable {cat cat' cat'' : Catalogue}

/-- Two catalogues have the same bindings, waiting blocks and declarations. -/
structure Agrees (cat cat' : Catalogue) : Prop where
  bindings : cat'.bindings = cat.bindings
  waiting : cat'.waiting = cat.waiting
  store : cat'.store = cat.store

theorem Agrees.refl (cat : Catalogue) : cat.Agrees cat := ⟨rfl, rfl, rfl⟩

theorem Agrees.trans (h : cat.Agrees cat') (h' : cat'.Agrees cat'') : cat.Agrees cat'' :=
  ⟨h'.bindings.trans h.bindings, h'.waiting.trans h.waiting, h'.store.trans h.store⟩

theorem Agrees.sound (h : cat.Agrees cat') (hs : cat.Sound) : cat'.Sound := by
  constructor
  · rw [h.bindings]
    exact hs.bindings
  · rw [h.store]
    exact hs.store

theorem Agrees.settled (h : cat.Agrees cat') (hs : cat.Settled) : cat'.Settled := by
  intro p hp
  rw [h.waiting] at hp
  rw [h.bindings]
  exact hs p hp

theorem agrees_launch (cat : Catalogue) (t : DeclType) : cat.Agrees (cat.launch t).2 :=
  ⟨rfl, rfl, rfl⟩

theorem agrees_addFolder (cat : Catalogue) (t : DeclType) (folder extension : String) :
    cat.Agrees (cat.addFolder t folder extension).2 :=
  ⟨rfl, rfl, rfl⟩

theorem agrees_workerExited (cat : Catalogue) (r : StartedScan) (panicked : Bool) :
    cat.Agrees (cat.workerExited r panicked) :=
  ⟨rfl, rfl, rfl⟩

theorem agrees_rescan (cat : Catalogue) : cat.Agrees cat.rescan.2 := by
  unfold Catalogue.rescan
  refine List.foldlRecOn (motive := fun sc : List StartedScan × Catalogue => cat.Agrees sc.2)
    cat.defaultTypes _ (.refl cat) ?_
  exact fun sc hsc t _ => hsc.trans (agrees_launch sc.2 t)

/-- A rescan launches scans of the default types. -/
theorem launched_of_mem_rescan {r : StartedScan} (h : r ∈ cat.rescan.1) :
    ∃ cat' t, t ∈ cat.defaultTypes ∧ r = (Catalogue.launch cat' t).1 := by
  have hlaunched : ∀ r ∈ cat.rescan.1,
      ∃ cat' t, t ∈ cat.defaultTypes ∧ r = (Catalogue.launch cat' t).1 := by
    unfold Catalogue.rescan
    refine List.foldlRecOn (motive := fun sc : List StartedScan × Catalogue => ∀ r ∈ sc.1,
      ∃ cat' t, t ∈ cat.defaultTypes ∧ r = (Catalogue.launch cat' t).1) cat.defaultTypes _ ?_ ?_
    · exact fun r hr => absurd hr List.not_mem_nil
    · intro sc hsc t ht r hr
      rcases List.mem_append.mp hr with hr | hr
      · exact hsc r hr
      · exact ⟨sc.2, t, ht, List.mem_singleton.mp hr⟩
  exact hlaunched r h

/-- Two catalogues differ in the tickets of their scans at most. -/
def SameButTickets (cat cat' : Catalogue) : Prop :=
  ∃ tickets superseded, cat' = { cat with tickets, superseded }

theorem SameButTickets.refl (cat : Catalogue) : cat.SameButTickets cat := ⟨_, _, rfl⟩

theorem SameButTickets.agrees (h : cat.SameButTickets cat') : cat.Agrees cat' := by
  obtain ⟨tickets, superseded, rfl⟩ := h
  exact ⟨rfl, rfl, rfl⟩

theorem sameButTickets_awaitType {t : DeclType} (h : cat.awaitType t = some cat') :
    cat.SameButTickets cat' := by
  unfold awaitType at h
  split at h
  · exact ⟨_, _, (Option.some.inj h).symm⟩
  · split at h
    · simp at h
    · exact ⟨_, _, (Option.some.inj h).symm⟩

theorem sameButTickets_joinCurrent {order : TableOrder DeclType}
    (h : (cat.joinCurrent order).map Prod.snd = some cat') :
    cat.SameButTickets cat' := by
  obtain ⟨joined, hjoin, rfl⟩ := Option.map_eq_some_iff.mp h
  obtain ⟨_, -, rfl⟩ := Option.map_eq_some_iff.mp hjoin
  exact ⟨_, _, rfl⟩

theorem sameButTickets_joinEvery {order : TableOrder DeclType}
    (h : (cat.joinEvery order).map Prod.snd = some cat') :
    cat.SameButTickets cat' := by
  obtain ⟨joined, hjoin, rfl⟩ := Option.map_eq_some_iff.mp h
  obtain ⟨_, -, rfl⟩ := Option.map_eq_some_iff.mp hjoin
  exact ⟨_, _, rfl⟩

end Catalogue

/-! ## Soundness -/

namespace Catalogue

variable {cat cat' : Catalogue}

theorem Sound.unbindType {keyword : String} {order : TableOrder String} (h : cat.Sound)
    (hu : cat.unbindType keyword order = .ok cat') : cat'.Sound := by
  unfold Catalogue.unbindType at hu
  split at hu
  · simp at hu
  · rename_i hb
    obtain rfl := Except.ok.inj hu
    exact ⟨h.bindings.unbindKeyword hb, h.store⟩

theorem Settled.unbindType {keyword : String} {order : TableOrder String} (h : cat.Sound)
    (hs : cat.Settled) (hu : cat.unbindType keyword order = .ok cat') : cat'.Settled := by
  unfold Catalogue.unbindType at hu
  split at hu
  · simp at hu
  · rename_i hb
    obtain rfl := Except.ok.inj hu
    exact fun p hp => h.bindings.meet_unbindKeyword hb (hs p hp)

theorem findOrCreate_cases {t : DeclType} {name : String} {handle : Handle}
    (h : cat.findOrCreate t name = .ok (handle, cat')) :
    cat' = cat ∨ ∃ c, cat.bindings.typeCreator? t = some c ∧
      cat' = { cat with
        store := (cat.store.insertNew (.of t name) (c.create name { name }) none).2 } := by
  unfold findOrCreate at h
  split at h
  · exact .inl (Prod.mk.inj (Except.ok.inj h)).2.symm
  · split at h
    · simp at h
    · rename_i c hc
      exact .inr ⟨c, hc, (Prod.mk.inj (Except.ok.inj h)).2.symm⟩

theorem Sound.completeScan (h : cat.Sound) (r : StartedScan) (f : Findings) :
    (cat.completeScan r f).1.Sound := by
  unfold Catalogue.completeScan
  split
  · exact h.installScan _ _ _
  · exact h

theorem Settled.completeScan (h : cat.Sound) (hs : cat.Settled) (r : StartedScan) (f : Findings) :
    (cat.completeScan r f).1.Settled := by
  unfold Catalogue.completeScan
  split
  · exact settled_installScan h _ _ _
  · exact hs

end Catalogue

namespace System

variable {s : System}

/-- The catalogue is sound, and settled unless a try is owed. -/
structure Sound (s : System) : Prop where
  catalogue : s.catalogue.Sound
  settled : s.owed = 0 → s.catalogue.Settled

theorem sound_start (limits : ScanLimits) : ({ catalogue := { limits } } : System).Sound :=
  ⟨⟨Bindings.consistent_empty, Store.sound_empty⟩, fun _ _ hp => absurd hp List.not_mem_nil⟩

theorem Sound.of_agrees {s' : System} (h : s.Sound) (hagrees : s.catalogue.Agrees s'.catalogue)
    (howed : s'.owed = s.owed) : s'.Sound :=
  ⟨hagrees.sound h.catalogue, fun hzero => hagrees.settled (h.settled (howed ▸ hzero))⟩

theorem sameButTickets_become {cat? : Option Catalogue}
    (hcat : ∀ cat, cat? = some cat → s.catalogue.SameButTickets cat) :
    s.catalogue.SameButTickets (s.become cat?).catalogue := by
  cases cat? with
  | none => exact .refl _
  | some cat => exact hcat cat rfl

theorem Sound.become {cat? : Option Catalogue} (h : s.Sound)
    (hcat : ∀ cat, cat? = some cat → s.catalogue.SameButTickets cat) : (s.become cat?).Sound :=
  h.of_agrees (sameButTickets_become hcat).agrees rfl

theorem Sound.bind (h : s.Sound) (keyword : String) (c : Creator) : (s.bind keyword c).Sound := by
  unfold System.bind
  split
  · exact h
  · rename_i hb
    exact ⟨⟨h.catalogue.bindings.bindKeyword hb, h.catalogue.store⟩,
      fun hzero => absurd hzero (Nat.succ_ne_zero _)⟩

theorem Sound.retry (h : s.Sound) : s.retry.Sound := by
  rw [System.retry_eq]
  split
  · exact h
  · exact ⟨h.catalogue.retryWaiting ∅, fun _ => Catalogue.settled_retryWaiting h.catalogue ∅⟩

theorem Sound.unbind (h : s.Sound) (keyword : String) (order : TableOrder String) :
    (s.unbind keyword order).Sound := by
  unfold System.unbind
  split
  · exact h
  · rename_i hu
    exact ⟨h.catalogue.unbindType hu, fun hzero => (h.settled hzero).unbindType h.catalogue hu⟩

theorem Sound.findOrCreate (h : s.Sound) (t : DeclType) (name : String) :
    (s.findOrCreate t name).Sound := by
  unfold System.findOrCreate
  split
  · exact h
  · rename_i hf
    rcases Catalogue.findOrCreate_cases hf with rfl | ⟨c, -, rfl⟩
    · exact h
    · exact ⟨⟨h.catalogue.bindings, h.catalogue.store.insertNew _ _ _⟩, h.settled⟩

theorem Sound.advance (h : s.Sound) (index : Nat) (access : FileAccess) :
    (s.advance index access).Sound := by
  rw [System.advance_eq]
  split
  · exact h
  · split
    · exact ⟨h.catalogue, h.settled⟩
    · exact ⟨h.catalogue.completeScan _ _,
        fun hzero => (h.settled hzero).completeScan h.catalogue _ _⟩
    · exact h.of_agrees (Catalogue.agrees_workerExited _ _ _) rfl

theorem Sound.leave (h : s.Sound) (index : Nat) : (s.leave index).Sound := by
  unfold System.leave
  split
  · exact h
  · exact h.of_agrees (Catalogue.agrees_workerExited _ _ _) rfl

/-- Every event keeps a system sound. -/
theorem Sound.perform (h : s.Sound) (e : Event) : (s.perform e).Sound := by
  cases e with
  | bind keyword c => exact h.bind keyword c
  | retry => exact h.retry
  | unbind keyword order => exact h.unbind keyword order
  | addFolder t folder extension =>
    exact h.of_agrees (Catalogue.agrees_addFolder s.catalogue t folder extension) rfl
  | rescan => exact h.of_agrees (Catalogue.agrees_rescan s.catalogue) rfl
  | findOrCreate t name => exact h.findOrCreate t name
  | remove t name =>
    exact ⟨⟨h.catalogue.bindings, h.catalogue.store.remove t name⟩, h.settled⟩
  | setBlock handle block =>
    exact ⟨⟨h.catalogue.bindings, h.catalogue.store.setBlock handle block⟩, h.settled⟩
  | advance index access => exact h.advance index access
  | leave index => exact h.leave index
  | await t => exact h.become fun cat hcat => Catalogue.sameButTickets_awaitType hcat
  | awaitAll => exact h.become fun cat hcat => Catalogue.sameButTickets_joinCurrent hcat
  | joinEvery => exact h.become fun cat hcat => Catalogue.sameButTickets_joinEvery hcat
  | connect t watcher => exact h.of_agrees ⟨rfl, rfl, rfl⟩ rfl
  | disconnect t id => exact h.of_agrees ⟨rfl, rfl, rfl⟩ rfl

theorem Sound.run (h : s.Sound) (es : List Event) : (es.foldl System.perform s).Sound :=
  List.foldlRecOn (motive := Sound) es _ h fun _ h e _ => h.perform e

theorem Reachable.sound (h : s.Reachable) : s.Sound := by
  induction h with
  | start limits => exact sound_start limits
  | perform _ e ih => exact ih.perform e

/-! ## The bindings along a run -/

/-- The bindings after an event, which depend on nothing but the bindings before. -/
def Event.rebind (b : Bindings) : Event → Bindings
  | .bind keyword c =>
    match b.bindKeyword keyword c with
    | .error _ => b
    | .ok b' => b'
  | .unbind keyword order =>
    match b.unbindKeyword keyword order with
    | .error _ => b
    | .ok (_, b') => b'
  | _ => b

theorem Event.rebind_bind {b b' : Bindings} {keyword : String} {c : Creator}
    (hb : b.bindKeyword keyword c = .ok b') : Event.rebind b (.bind keyword c) = b' := by
  unfold Event.rebind
  dsimp only
  rw [hb]

theorem bindings_become {cat? : Option Catalogue}
    (hcat : ∀ cat, cat? = some cat → s.catalogue.SameButTickets cat) :
    (s.become cat?).catalogue.bindings = s.catalogue.bindings :=
  (sameButTickets_become hcat).agrees.bindings

theorem bindings_perform (s : System) (e : Event) :
    (s.perform e).catalogue.bindings = e.rebind s.catalogue.bindings := by
  cases e with
  | bind keyword c =>
    show (s.bind keyword c).catalogue.bindings = _
    unfold System.bind Event.rebind
    dsimp only
    cases s.catalogue.bindings.bindKeyword keyword c <;> rfl
  | retry =>
    show s.retry.catalogue.bindings = _
    rw [System.retry_eq]
    split <;> rfl
  | unbind keyword order =>
    show (s.unbind keyword order).catalogue.bindings = _
    unfold System.unbind Catalogue.unbindType Event.rebind
    dsimp only
    cases s.catalogue.bindings.unbindKeyword keyword order <;> rfl
  | addFolder t folder extension => rfl
  | rescan => exact s.catalogue.agrees_rescan.bindings
  | findOrCreate t name =>
    show (s.findOrCreate t name).catalogue.bindings = _
    unfold System.findOrCreate
    split
    · rfl
    · rename_i hf
      rcases Catalogue.findOrCreate_cases hf with rfl | ⟨c, -, rfl⟩ <;> rfl
  | remove t name => rfl
  | setBlock handle block => rfl
  | advance index access =>
    show (s.advance index access).catalogue.bindings = _
    rw [System.advance_eq]
    split
    · rfl
    · split
      · rfl
      · unfold Catalogue.completeScan
        split <;> rfl
      · rfl
  | leave index =>
    show (s.leave index).catalogue.bindings = _
    unfold System.leave
    split <;> rfl
  | await t => exact bindings_become fun cat hcat => Catalogue.sameButTickets_awaitType hcat
  | awaitAll => exact bindings_become fun cat hcat => Catalogue.sameButTickets_joinCurrent hcat
  | joinEvery => exact bindings_become fun cat hcat => Catalogue.sameButTickets_joinEvery hcat
  | connect t watcher => rfl
  | disconnect t id => rfl

theorem bindings_run (s : System) (es : List Event) :
    (es.foldl perform s).catalogue.bindings = es.foldl Event.rebind s.catalogue.bindings := by
  induction es generalizing s with
  | nil => rfl
  | cons e es ih => rw [List.foldl_cons, List.foldl_cons, ih, bindings_perform]

/-! ## Completing a scan -/

/-- The current scan of a type is completed, with findings that are sorted by the bindings as they
are. Under every key with a block the last one is stored, in the declaration that was there before
if there was one. What is stored under the other keys is kept unless it came from a scan of the
type. The waiting blocks of the type give way to those that were found, and its files to those that
were visited. -/
theorem completeScan_effect {s : System} {r : StartedScan} {f : Findings} (hs : s.Reachable)
    (hquiet : s.owed = 0) (hcurrent : s.catalogue.isCurrent r)
    (hf : f.SortedBy s.catalogue.bindings r.scan.defaultType)
    (hkeeps : s.catalogue.bindings.KeepsBlocks) :
    let t := r.scan.defaultType
    let before := s.catalogue
    let after := (s.catalogue.completeScan r f).1
    (∀ key,
      (∀ block, f.lastBlock? key = some block →
        ∃ st, after.store.stored? key = some st ∧
          st.declaration.block = block ∧ st.origin = some t ∧
          ∀ old, before.store.stored? key = some old → st.handle = old.handle) ∧
      (f.lastBlock? key = none →
        after.store.stored? key =
          (before.store.stored? key).filter fun st => st.origin ≠ some t)) ∧
    after.waiting = before.waiting.filter (·.origin ≠ t) ++ f.waiting ∧
    (after.visitedOf t).files = f.files ∧ ∀ t' ≠ t, after.visitedOf t' = before.visitedOf t' := by
  intro t before after
  obtain ⟨hsound, hsettled⟩ := hs.sound
  have hresolved := hf.resolved hsound.bindings
  have hafter : after = before.withFound t r.previous f := by
    show (s.catalogue.completeScan r f).1 = _
    unfold Catalogue.completeScan
    rw [if_pos hcurrent,
      Catalogue.installScan_of_resolved hsound (hsettled hquiet) hresolved hkeeps]
  have hleft := (Catalogue.installFound_of_resolved (t := t) hsound hresolved hkeeps).1
  rw [hafter]
  refine ⟨?_, ?_, ?_, ?_⟩
  · intro key
    constructor
    · intro block hlast
      exact Catalogue.stored?_withFound_of_some hsound hresolved hkeeps hlast
    · intro hlast
      exact Catalogue.stored?_withFound_of_none hsound hresolved hkeeps hlast
  · show before.waiting.filter (·.origin ≠ t) ++ (before.installFound t f).left ++ f.waiting = _
    rw [hleft, List.append_nil]
  · show ((before.visited.insert t _)[t]?.getD {}).files = f.files
    rw [Std.ExtTreeMap.getElem?_insert_self, Option.getD_some]
  · intro t' ht'
    show (before.visited.insert t _)[t']?.getD {} = before.visited[t']?.getD {}
    rw [Std.ExtTreeMap.getElem?_insert, if_neg]
    rw [DeclType.compare_eq_eq]
    exact ht'.symm

/-- A declaration made on demand gets the last of two sources found for it, and a block whose
keyword is not bound waits. -/
theorem completeScan_effect_stone :
    let t : DeclType := ⟨"material"⟩
    let s : System :=
      [.bind "Material" (.plain t), .retry, .findOrCreate t "STONE",
        .addFolder t "materials" "mtr"].foldl perform {}
    let r : StartedScan :=
      ⟨1, ∅, { defaultType := t, limits := {}, folders := [⟨"materials/", ".mtr", t⟩] }⟩
    let last : BlockSource := { keyword := "material", name := "stone" }
    let noise : BlockSource := { keyword := "Sound", name := "noise" }
    let f := Findings.addFile s.catalogue.bindings t {} ⟨"materials/a.mtr", ⟨"/"⟩, "base", ⟨9, 0⟩⟩
      [{ name := "Stone" }, noise, last]
    let after := (s.catalogue.completeScan r f).1
    s.Reachable ∧ s.owed = 0 ∧ s.scans = [r] ∧ s.catalogue.isCurrent r ∧
      f.SortedBy s.catalogue.bindings t ∧ s.catalogue.bindings.KeepsBlocks ∧
      (∃ st, after.store.stored? (.of t "Stone") = some st ∧ st.handle = 0 ∧
        st.declaration.block = last ∧ st.origin = some t) ∧
      after.waiting = [⟨.keyword "sound", noise, t⟩] ∧ (after.visitedOf t).files = f.files := by
  intro t s r last noise f after
  have hreachable : s.Reachable := (Reachable.start {}).run _
  have howed : s.owed = 0 := by decide
  have hscans : s.scans = [r] := by
    unfold s r t
    rfl
  have hcurrent : s.catalogue.isCurrent r := by decide
  have hsorted : f.SortedBy s.catalogue.bindings t := .addFile .nothing _ _
  have hkeeps : s.catalogue.bindings.KeepsBlocks := by
    intro t' c hc name block
    have hbyType : s.catalogue.bindings.byType = Std.ExtTreeMap.insert ∅ t (.plain t) := by
      unfold s t
      rfl
    unfold Bindings.typeCreator? at hc
    rw [hbyType, Std.ExtTreeMap.getElem?_insert] at hc
    split at hc
    · obtain rfl := Option.some.inj hc
      rfl
    · simp at hc
  obtain ⟨hkeys, hwaiting, hfiles, -⟩ :=
    completeScan_effect hreachable howed hcurrent hsorted hkeeps
  have hlast : f.lastBlock? (.of t "Stone") = some last := by decide
  have hstored : s.catalogue.store.stored? (.of t "Stone") =
      some ⟨0, ⟨t, "STONE", { name := "STONE" }, 0, ""⟩, none⟩ := by decide
  have hfound : s.catalogue.waiting.filter (·.origin ≠ t) ++ f.waiting =
      [⟨.keyword "sound", noise, t⟩] := by decide
  obtain ⟨st, hst, hblock, horigin, hhandle⟩ := (hkeys (.of t "Stone")).1 last hlast
  exact ⟨hreachable, howed, hscans, hcurrent, hsorted, hkeeps,
    ⟨st, hst, hhandle _ hstored, hblock, horigin⟩, hwaiting.trans hfound, hfiles⟩

end System

end AssetDecl
