import AssetDecl.Proofs.CreatorBinding

/-!
# Growing bindings

Binding keywords only adds to what is there (`Bindings.Grows`). A list of keywords that differ up to
the case of ASCII letters can be bound in any order, and which needs are met in the end does not
depend on the order (`Bindings.Binds.meet_eq`).
-/

namespace AssetDecl

/-- A keyword and the creator that it is bound to. -/
structure KeywordBinding where
  keyword : String
  creator : Creator

/-- The keyword, case folded. -/
def KeywordBinding.key (k : KeywordBinding) : String :=
  Text.foldCase k.keyword

namespace Bindings

variable {b b' b'' : Bindings} {t : DeclType} {need : Need}

/-! ## Growing -/

/-- Every keyword stays bound to its creator, and every need that is met stays met by the same
type. -/
structure Grows (b b' : Bindings) : Prop where
  bound : ∀ (k : String) c, b.byKeyword[k]? = some c → b'.byKeyword[k]? = some c
  met : ∀ need t, b.meet need = some t → b'.meet need = some t

theorem Grows.refl (b : Bindings) : b.Grows b :=
  ⟨fun _ _ h => h, fun _ _ h => h⟩

theorem Grows.trans (h : b.Grows b') (h' : b'.Grows b'') : b.Grows b'' :=
  ⟨fun k c hk => h'.bound k c (h.bound k c hk), fun need t hm => h'.met need t (h.met need t hm)⟩

theorem Grows.unmet (h : b.Grows b') (hm : b'.meet need = none) : b.meet need = none := by
  rw [Option.eq_none_iff_forall_ne_some]
  intro t ht
  rw [h.met need t ht] at hm
  simp at hm

theorem grows_bindKeyword {keyword : String} {c : Creator}
    (h : b.bindKeyword keyword c = .ok b') : b.Grows b' := by
  obtain ⟨hfree, rfl⟩ := bindKeyword_eq_ok h
  have hbound : ∀ (k : String) c', b.byKeyword[k]? = some c' →
      (b.byKeyword.insert (Text.foldCase keyword) c)[k]? = some c' := by
    intro k c' hk
    rw [Std.ExtTreeMap.getElem?_insert, if_neg, hk]
    rw [Std.LawfulEqOrd.compare_eq_iff_eq]
    rintro rfl
    exact absurd (hfree.symm.trans hk) (by simp)
  refine ⟨hbound, ?_⟩
  intro need t hm
  cases need with
  | keyword text =>
    rw [meet_keyword] at hm ⊢
    obtain ⟨c', hc', rfl⟩ := Option.map_eq_some_iff.mp hm
    exact Option.map_eq_some_iff.mpr ⟨c', hbound _ c' hc', rfl⟩
  | defaultType t' =>
    rw [meet_defaultType] at hm ⊢
    have hkept : (b.typeCreator? t').isSome →
        ((b.byType.insert c.declType c)[t']?).isSome := by
      intro hsome
      rw [Std.ExtTreeMap.getElem?_insert]
      split
      · rfl
      · exact hsome
    split at hm
    · rename_i hsome
      exact (if_pos (hkept hsome)).trans hm
    · simp at hm

/-! ## Needs are met by keywords -/

theorem Consistent.isSome_typeCreator?_iff (h : b.Consistent) :
    (b.typeCreator? t).isSome ↔ ∃ (k : String) (c : Creator),
      b.byKeyword[k]? = some c ∧ c.declType = t := by
  constructor
  · intro hsome
    obtain ⟨c, hc⟩ := Option.isSome_iff_exists.mp hsome
    obtain ⟨htype, k, hk⟩ := h.bound t c hc
    exact ⟨k, c, hk, htype⟩
  · rintro ⟨k, c, hk, rfl⟩
    exact h.typed k c hk

/-- Which needs are met, and by which types, depends on the keywords alone. -/
theorem Consistent.meet_eq (h : b.Consistent) (h' : b'.Consistent)
    (hkeywords : b.byKeyword = b'.byKeyword) (need : Need) : b.meet need = b'.meet need := by
  cases need with
  | keyword text =>
    rw [meet_keyword, meet_keyword, keywordCreator?, keywordCreator?, hkeywords]
  | defaultType t =>
    have hiff : (b.typeCreator? t).isSome ↔ (b'.typeCreator? t).isSome := by
      rw [h.isSome_typeCreator?_iff, h'.isSome_typeCreator?_iff, hkeywords]
    rw [meet_defaultType, meet_defaultType, if_congr hiff rfl rfl]

/-! ## Binding several keywords -/

/-- The keywords that are bound are these, each to its creator. -/
def Binds (b : Bindings) (ks : List KeywordBinding) : Prop :=
  ∀ (key : String) c, b.byKeyword[key]? = some c ↔ ∃ k ∈ ks, k.key = key ∧ k.creator = c

variable {k : KeywordBinding} {ks ks' : List KeywordBinding}

theorem binds_empty : ({} : Bindings).Binds [] := by
  intro key c
  simp

theorem Binds.perm (h : b.Binds ks) (hperm : ks.Perm ks') : b.Binds ks' := by
  intro key c
  rw [h key c]
  constructor
  · rintro ⟨k, hk, hkey⟩
    exact ⟨k, hperm.subset hk, hkey⟩
  · rintro ⟨k, hk, hkey⟩
    exact ⟨k, hperm.symm.subset hk, hkey⟩

theorem Binds.byKeyword_eq (h : b.Binds ks) (h' : b'.Binds ks) : b.byKeyword = b'.byKeyword := by
  apply Std.ExtTreeMap.ext_getElem?
  intro key
  apply Option.ext
  intro c
  rw [h key c, h' key c]

/-- Two bindings of the same keywords meet the same needs. -/
theorem Binds.meet_eq (h : b.Binds ks) (h' : b'.Binds ks') (hperm : ks.Perm ks')
    (hb : b.Consistent) (hb' : b'.Consistent) (need : Need) : b.meet need = b'.meet need :=
  hb.meet_eq hb' ((h.perm hperm).byKeyword_eq h') need

theorem Binds.isBound_iff (h : b.Binds ks) (keyword : String) :
    b.isBound keyword = true ↔ Text.foldCase keyword ∈ ks.map KeywordBinding.key := by
  rw [isBound, Std.ExtTreeMap.contains_eq_isSome_getElem?, Option.isSome_iff_exists, List.mem_map]
  constructor
  · rintro ⟨c, hc⟩
    obtain ⟨k, hk, hkey, -⟩ := (h _ c).mp hc
    exact ⟨k, hk, hkey⟩
  · rintro ⟨k, hk, hkey⟩
    exact ⟨k.creator, (h _ _).mpr ⟨k, hk, hkey, rfl⟩⟩

/-- Another keyword can be bound. -/
theorem Binds.bindKeyword (h : b.Binds ks) (hnew : k.key ∉ ks.map KeywordBinding.key) :
    ∃ b', b.bindKeyword k.keyword k.creator = .ok b' ∧ b'.Binds (ks ++ [k]) := by
  have hunbound : b.isBound k.keyword = false := by
    rw [← Bool.not_eq_true, h.isBound_iff]
    exact hnew
  refine ⟨⟨b.byKeyword.insert k.key k.creator,
    b.byType.insert k.creator.declType k.creator⟩, ?_, ?_⟩
  · rw [Bindings.bindKeyword, hunbound]
    rfl
  · intro key c
    show (b.byKeyword.insert k.key k.creator)[key]? = some c ↔ _
    simp only [Std.ExtTreeMap.getElem?_insert, Std.LawfulEqOrd.compare_eq_iff_eq]
    split
    · rename_i hkey
      subst hkey
      rw [Option.some.injEq]
      constructor
      · intro hc
        exact ⟨k, by simp, rfl, hc⟩
      · rintro ⟨k', hk', hkey, hc⟩
        rcases List.mem_append.mp hk' with hk' | hk'
        · exact absurd (hkey ▸ List.mem_map_of_mem hk') hnew
        · obtain rfl := List.mem_singleton.mp hk'
          exact hc
    · rename_i hkey
      rw [h key c]
      constructor
      · rintro ⟨k', hk', h'⟩
        exact ⟨k', List.mem_append_left _ hk', h'⟩
      · rintro ⟨k', hk', h'⟩
        rcases List.mem_append.mp hk' with hk' | hk'
        · exact ⟨k', hk', h'⟩
        · obtain rfl := List.mem_singleton.mp hk'
          exact absurd h'.1 hkey

end Bindings

end AssetDecl
