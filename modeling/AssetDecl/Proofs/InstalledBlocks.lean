import AssetDecl.Catalogue.Install
import AssetDecl.Proofs.CreatorBinding
import AssetDecl.Proofs.StoredDeclarations

/-!
# Installed and waiting blocks

While the bindings are consistent, a block is installed exactly if its need is met, and trying the
waiting blocks again leaves those that wait for something (`settled_retryWaiting`). Where every
block of a catalogue does (`Catalogue.Settled`), trying them again changes nothing.

Of several blocks with one key that are installed in turn, the last one is kept
(`Installing.foldl_putFound`).
-/

namespace AssetDecl

theorem Store.install_isSome (s : Store) (b : Bindings) (t : DeclType) (block : BlockSource)
    (origin : DeclType) : (s.install b t block origin).isSome = (b.typeCreator? t).isSome := by
  unfold Store.install
  cases b.typeCreator? t with
  | none => rfl
  | some c =>
    dsimp only
    split <;> rfl

/-- The declarations that bound creators make have the source that they are made from. A creator
comes from outside, and nothing here looks at what it makes. -/
def Bindings.KeepsBlocks (b : Bindings) : Prop :=
  ∀ t c, b.typeCreator? t = some c → ∀ name block, (c.create name block).block = block

/-- What has become of what was stored under a key, once blocks of one origin have been installed
there: without a last block nothing, otherwise the declaration has its source. -/
def Stored.Follows (origin : DeclType) (old : Option Stored) :
    (last : Option BlockSource) → (new : Option Stored) → Prop
  | none, new => new = old
  | some block, new => ∃ st, new = some st ∧ st.declaration.block = block ∧
      st.origin = some origin ∧ ∀ st', old = some st' → st.handle = st'.handle

/-- A declaration that was stored still is. -/
theorem Stored.Follows.handle_eq {origin : DeclType} {old new : Option Stored}
    {last : Option BlockSource} {st' : Stored} (h : Follows origin old last new)
    (hold : old = some st') : ∃ st, new = some st ∧ st.handle = st'.handle := by
  cases last with
  | none => exact ⟨st', h.trans hold, rfl⟩
  | some block =>
    obtain ⟨st, hnew, -, -, hhandle⟩ := h
    exact ⟨st, hnew, hhandle st' hold⟩

theorem Stored.Follows.renew {origin : DeclType} {old new : Option Stored}
    {last : Option BlockSource} {block : BlockSource} {c : Creator}
    (h : Follows origin old last new) (hc : (c.create block.name block).block = block)
    (fresh : Handle) :
    Follows origin old (some block) (some (.renew c fresh block origin new)) := by
  refine ⟨_, rfl, ?_, ?_, ?_⟩
  · cases new with
    | none => exact hc
    | some st => rfl
  · cases new <;> rfl
  · intro st' hold
    obtain ⟨st, rfl, hhandle⟩ := h.handle_eq hold
    exact hhandle

namespace Catalogue

namespace Installing

variable {b : Bindings} {i : Installing} {t : DeclType} {p : WaitingBlock}

/-! ## One block -/

theorem put_eq {s : Store} (h : i.store.install b t p.block p.origin = some s) :
    i.put b t p = { i with store := s, changed := i.changed.insert t } := by
  unfold put
  rw [h]

theorem left_put (hc : (b.typeCreator? t).isSome) : (i.put b t p).left = i.left := by
  rw [← Store.install_isSome i.store b t p.block p.origin] at hc
  obtain ⟨s, hs⟩ := Option.isSome_iff_exists.mp hc
  rw [put_eq hs]

theorem sound_put (h : i.store.Sound) : (i.put b t p).store.Sound := by
  unfold put
  cases hc : b.typeCreator? t with
  | none =>
    have hnone : i.store.install b t p.block p.origin = none := by
      rw [← Option.isNone_iff_eq_none, ← Option.not_isSome, Store.install_isSome, hc]
      rfl
    rw [hnone]
    exact h
  | some c =>
    obtain ⟨s, hs, hsound, -⟩ := h.install hc p.block p.origin
    rw [hs]
    exact hsound

theorem retry_of_unmet (h : b.meet p.need = none) :
    i.retry b p = { i with left := i.left ++ [p] } := by
  unfold retry
  rw [h]

theorem sound_retry (h : i.store.Sound) : (i.retry b p).store.Sound := by
  unfold retry
  split
  · exact sound_put h
  · exact h

theorem left_retry (hb : b.Consistent) :
    (i.retry b p).left = i.left ++ [p].filter fun p => b.meet p.need = none := by
  cases hm : b.meet p.need with
  | none =>
    rw [retry_of_unmet hm, List.filter_singleton, hm]
    rfl
  | some t =>
    unfold retry
    rw [List.filter_singleton, hm]
    show (i.put b t p).left = i.left ++ []
    rw [left_put (hb.isSome_of_meet hm), List.append_nil]

/-! ## Several blocks -/

theorem sound_foldl {α : Type} {f : Installing → α → Installing}
    (hf : ∀ i a, i.store.Sound → (f i a).store.Sound) (as : List α) (h : i.store.Sound) :
    (as.foldl f i).store.Sound := by
  induction as generalizing i with
  | nil => exact h
  | cons a as ih => exact ih (hf i a h)

theorem left_foldl_retry (hb : b.Consistent) (ps : List WaitingBlock) :
    (ps.foldl (retry b) i).left = i.left ++ ps.filter fun p => b.meet p.need = none := by
  induction ps generalizing i with
  | nil => rw [List.foldl_nil, List.filter_nil, List.append_nil]
  | cons p ps ih =>
    rw [List.foldl_cons, ih, left_retry hb, List.append_assoc, ← List.filter_append,
      List.singleton_append]

theorem foldl_retry_of_unmet (ps : List WaitingBlock) (h : ∀ p ∈ ps, b.meet p.need = none) :
    ps.foldl (retry b) i = { i with left := i.left ++ ps } := by
  induction ps generalizing i with
  | nil => rw [List.foldl_nil, List.append_nil]
  | cons p ps ih =>
    rw [List.foldl_cons, retry_of_unmet (h p List.mem_cons_self),
      ih fun q hq => h q (List.mem_cons_of_mem p hq), List.append_assoc, List.singleton_append]

/-- Installs a block of a scan of `origin` under its type, or leaves it waiting. -/
def putFound (b : Bindings) (origin : DeclType) (i : Installing) (p : DeclType × BlockSource) :
    Installing :=
  i.put b p.1 ⟨.of p.2.keyword origin, p.2, origin⟩

/-- The last block under a key stays, in the declaration that was stored there if there was one. -/
theorem foldl_putFound (hkeeps : b.KeepsBlocks) (origin : DeclType)
    (found : List (DeclType × BlockSource)) (hfound : ∀ p ∈ found, (b.typeCreator? p.1).isSome)
    (h : i.store.Sound) :
    (found.foldl (putFound b origin) i).left = i.left ∧
      (found.foldl (putFound b origin) i).store.Sound ∧
      ∀ key, Stored.Follows origin (i.store.stored? key)
        ((found.filter fun p => DeclKey.of p.1 p.2.name = key).getLast?.map Prod.snd)
        ((found.foldl (putFound b origin) i).store.stored? key) := by
  induction found using List.reverseRecOn with
  | nil => exact ⟨rfl, h, fun key => rfl⟩
  | append_singleton found p ih =>
    obtain ⟨hleft, hsound, hfollows⟩ := ih fun q hq => hfound q (List.mem_append_left _ hq)
    obtain ⟨c, hc⟩ := Option.isSome_iff_exists.mp (hfound p (by simp))
    obtain ⟨s', hs', hsound', hstored⟩ := hsound.install hc p.2 origin
    rw [List.foldl_append, List.foldl_cons, List.foldl_nil]
    generalize found.foldl (putFound b origin) i = i' at *
    have hput : i'.putFound b origin p =
        { i' with store := s', changed := i'.changed.insert p.1 } := put_eq hs'
    rw [hput]
    refine ⟨hleft, hsound', ?_⟩
    intro key
    show Stored.Follows origin _ _ (s'.stored? key)
    rw [hstored key, List.filter_append]
    by_cases hkey : DeclKey.of p.1 p.2.name = key
    · rw [if_pos hkey, List.filter_cons_of_pos (by simpa using hkey), List.filter_nil,
        List.getLast?_concat]
      exact (hfollows key).renew (hkeeps p.1 c hc p.2.name p.2) _
    · rw [if_neg hkey, List.filter_cons_of_neg (by simpa using hkey), List.filter_nil,
        List.append_nil]
      exact hfollows key

end Installing

/-! ## The waiting blocks of a catalogue -/

variable {cat : Catalogue}

/-- The bindings agree, and no declaration is stored twice. -/
structure Sound (cat : Catalogue) : Prop where
  bindings : cat.bindings.Consistent
  store : cat.store.Sound

/-- Every waiting block waits for something that is not there. -/
def Settled (cat : Catalogue) : Prop :=
  ∀ p ∈ cat.waiting, cat.bindings.meet p.need = none

theorem Sound.retryWaiting (h : cat.Sound) (changed : TypeSet) :
    (cat.retryWaiting changed).1.Sound :=
  ⟨h.bindings, Installing.sound_foldl (fun _ _ => Installing.sound_retry) cat.waiting h.store⟩

/-- The blocks whose needs are not met wait further, in the same order. -/
theorem waiting_retryWaiting (h : cat.Sound) (changed : TypeSet) :
    (cat.retryWaiting changed).1.waiting =
      cat.waiting.filter fun p => cat.bindings.meet p.need = none := by
  have hleft := Installing.left_foldl_retry (i := { store := cat.store, changed }) h.bindings
    cat.waiting
  rw [List.nil_append] at hleft
  exact hleft

theorem settled_retryWaiting (h : cat.Sound) (changed : TypeSet) :
    (cat.retryWaiting changed).1.Settled := by
  intro p hp
  rw [waiting_retryWaiting h, List.mem_filter] at hp
  exact of_decide_eq_true hp.2

theorem retryWaiting_of_settled (h : cat.Settled) (changed : TypeSet) :
    cat.retryWaiting changed = (cat, changed) := by
  unfold retryWaiting
  rw [Installing.foldl_retry_of_unmet cat.waiting h]
  rfl

end Catalogue

end AssetDecl
