import AssetDecl.Proofs.GrowingBindings
import AssetDecl.Proofs.InstalledScan
import AssetDecl.Proofs.VisitedBlocks

/-!
# Aspects of installed declarations

An `Aspect` is something about a declaration that is settled by the block that was installed last:
that it is there, or its source. When blocks are installed one after the other, the last one of a
key settles it, whether a scan found them (`Aspect.held?_foldl_putFound`) or they have waited
(`Aspect.held?_retryWaiting`).
-/

namespace AssetDecl

/-- Whatever keyword a creator is bound to, the declarations it makes have the source that they are
made from. -/
def Bindings.AllKeepBlocks (b : Bindings) : Prop :=
  ∀ (k : String) c, b.byKeyword[k]? = some c → ∀ name block, (c.create name block).block = block

/-- The source of the declaration that is stored under a key. -/
def Store.source? (s : Store) (key : DeclKey) : Option BlockSource :=
  (s.stored? key).map fun st => st.declaration.block

/-- Something about the declarations of some creators that the last installed block settles. -/
structure Aspect (b : Bindings) (β : Type) where
  of : Declaration → β
  ofBlock : BlockSource → β
  of_setBlock : ∀ (d : Declaration) block, of (d.setBlock block) = ofBlock block
  of_create : ∀ (k : String) c, b.byKeyword[k]? = some c → ∀ name block,
    of (c.create name block) = ofBlock block

namespace Aspect

/-- That there is a declaration. -/
def presence (b : Bindings) : Aspect b Unit where
  of _ := ()
  ofBlock _ := ()
  of_setBlock _ _ := rfl
  of_create _ _ _ _ _ := rfl

def source {b : Bindings} (hkeeps : b.AllKeepBlocks) : Aspect b BlockSource where
  of d := d.block
  ofBlock block := block
  of_setBlock _ _ := rfl
  of_create := hkeeps

variable {β : Type} {b b' : Bindings} (a : Aspect b' β)

/-- The aspect of what is stored under a key. -/
def held? (s : Store) (key : DeclKey) : Option β :=
  (s.stored? key).map fun st => a.of st.declaration

theorem of_renew (hgrows : b.Grows b') (hb : b.Consistent) {t : DeclType} {c : Creator}
    (hc : b.typeCreator? t = some c) (fresh : Handle) (block : BlockSource) (origin : DeclType)
    (old : Option Stored) : a.of (Stored.renew c fresh block origin old).declaration =
      a.ofBlock block := by
  cases old with
  | none =>
    obtain ⟨-, k, hk⟩ := hb.bound t c hc
    exact a.of_create k c (hgrows.bound k c hk) block.name block
  | some old => exact a.of_setBlock old.declaration block

end Aspect

/-! ## The last write -/

/-- If every step writes a value or leaves what is seen, the last value that was written is seen in
the end. -/
theorem foldl_last {σ α β : Type} (Inv : σ → Prop) (view : σ → Option β) {step : σ → α → σ}
    {writes : α → Bool} {value : α → β} {as : List α} {s : σ} (hs : Inv s)
    (hstep : ∀ s, Inv s → ∀ a ∈ as,
      Inv (step s a) ∧ view (step s a) = if writes a then some (value a) else view s) :
    Inv (as.foldl step s) ∧
      view (as.foldl step s) = ((as.filter writes).getLast?.map value).or (view s) := by
  induction as using List.reverseRecOn with
  | nil => exact ⟨hs, rfl⟩
  | append_singleton as a ih =>
    obtain ⟨hinv, hview⟩ := ih fun s hs a' ha' => hstep s hs a' (List.mem_append_left _ ha')
    obtain ⟨hinv', hview'⟩ := hstep _ hinv a (by simp)
    rw [List.foldl_append, List.foldl_cons, List.foldl_nil]
    refine ⟨hinv', ?_⟩
    rw [hview', List.filter_append]
    cases hwrites : writes a with
    | true =>
      rw [if_pos rfl, List.filter_cons_of_pos hwrites, List.filter_nil, List.getLast?_concat]
      rfl
    | false =>
      rw [if_neg Bool.false_ne_true, List.filter_cons_of_neg (by simp [hwrites]), List.filter_nil,
        List.append_nil, hview]

namespace Catalogue.Installing

variable {β : Type} {b b' : Bindings} {i : Installing} {t : DeclType}

/-- A block whose type has a creator settles what is under its key, and nothing else. -/
theorem held?_put (a : Aspect b' β) (hgrows : b.Grows b') (hb : b.Consistent) (h : i.store.Sound)
    (hc : (b.typeCreator? t).isSome) (p : WaitingBlock) (key : DeclKey) :
    a.held? (i.put b t p).store key =
      if DeclKey.of t p.block.name = key then some (a.ofBlock p.block)
      else a.held? i.store key := by
  obtain ⟨c, hc⟩ := Option.isSome_iff_exists.mp hc
  obtain ⟨s', hs', -, hstored⟩ := h.install hc p.block p.origin
  rw [put_eq hs', Aspect.held?, hstored key]
  split
  · rw [Option.map_some, a.of_renew hgrows hb hc]
  · rfl

theorem held?_retry (a : Aspect b' β) (hgrows : b.Grows b') (hb : b.Consistent)
    (h : i.store.Sound) (p : WaitingBlock) (key : DeclKey) :
    a.held? (i.retry b p).store key =
      if p.goesTo b key then some (a.ofBlock p.block) else a.held? i.store key := by
  cases hm : b.meet p.need with
  | none =>
    have hgoes : ¬p.goesTo b key = true := by
      rw [WaitingBlock.goesTo_iff, hm]
      simp
    rw [retry_of_unmet hm, if_neg hgoes]
  | some t =>
    have hgoes : p.goesTo b key = true ↔ DeclKey.of t p.block.name = key := by
      obtain ⟨t', name⟩ := key
      rw [WaitingBlock.goesTo_iff, hm, Option.some.injEq, DeclKey.of, DeclKey.mk.injEq]
    have hput : i.retry b p = i.put b t p := by
      unfold retry
      rw [hm]
    rw [hput, held?_put a hgrows hb h (hb.isSome_of_meet hm), if_congr hgoes rfl rfl]

theorem left_foldl_putFound (origin : DeclType) (found : List (DeclType × BlockSource))
    (hfound : ∀ p ∈ found, (b.typeCreator? p.1).isSome) :
    (found.foldl (putFound b origin) i).left = i.left := by
  refine List.foldlRecOn (motive := fun i' : Installing => i'.left = i.left) found _ rfl ?_
  intro i' hi' p hp
  exact (left_put (hfound p hp)).trans hi'

end Catalogue.Installing

namespace Aspect

open Catalogue (Installing)

variable {β : Type} {b b' : Bindings} (a : Aspect b' β) {i : Installing} {cat : Catalogue}

/-- The last block that was found for a key settles what is under it. -/
theorem held?_foldl_putFound (hgrows : b.Grows b') (hb : b.Consistent) (h : i.store.Sound)
    (origin : DeclType) {found : List (DeclType × BlockSource)}
    (hfound : ∀ p ∈ found, (b.typeCreator? p.1).isSome) (key : DeclKey) :
    a.held? (found.foldl (Installing.putFound b origin) i).store key =
      ((found.filter fun p => DeclKey.of p.1 p.2.name = key).getLast?.map
        fun p => a.ofBlock p.2).or (a.held? i.store key) := by
  refine (foldl_last (fun i : Installing => i.store.Sound) (fun i => a.held? i.store key) h ?_).2
  intro i hi p hp
  refine ⟨Installing.sound_put hi, ?_⟩
  simp only [decide_eq_true_eq]
  exact Installing.held?_put a hgrows hb hi (hfound p hp) _ key

/-- The last waiting block of a key whose need is met settles what is under it. -/
theorem held?_retryWaiting (hgrows : cat.bindings.Grows b') (h : cat.Sound) (changed : TypeSet)
    (key : DeclKey) :
    a.held? (cat.retryWaiting changed).1.store key =
      ((cat.waiting.filter (WaitingBlock.goesTo cat.bindings key)).getLast?.map
        fun p => a.ofBlock p.block).or (a.held? cat.store key) := by
  refine (foldl_last (fun i : Installing => i.store.Sound) (fun i => a.held? i.store key)
    (s := { store := cat.store, changed }) h.store ?_).2
  intro i hi p _
  exact ⟨Installing.sound_retry hi, Installing.held?_retry a hgrows h.bindings hi p key⟩

end Aspect

end AssetDecl
