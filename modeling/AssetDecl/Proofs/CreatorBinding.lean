import AssetDecl.Bindings
import Mathlib.Tactic

/-!
# Consistent bindings

The two maps of `Bindings` agree: a type has a creator exactly while some keyword is bound to one
that makes it (`Bindings.Consistent`), and binding and unbinding keep it so. Hence a type that was
assigned to a block has a creator, and what a block waits for is not met by the same bindings.
-/

namespace AssetDecl

theorem Text.toLower_toLower (c : Char) : c.toLower.toLower = c.toLower := by
  unfold Char.toLower
  split
  · rename_i h
    have hlow : 65 ≤ c.val.toNat := h.1
    have hhigh : c.val.toNat ≤ 90 := h.2
    rw [dif_neg]
    rintro ⟨-, hle⟩
    have hsum : (c.val + 32).toNat ≤ 90 := hle
    rw [UInt32.toNat_add, show (32 : UInt32).toNat = 32 from rfl] at hsum
    omega
  · rfl

@[simp] theorem Text.foldCase_foldCase (s : String) : foldCase (foldCase s) = foldCase s := by
  unfold foldCase
  rw [String.toList_ofList, List.map_map]
  congr 2
  funext c
  exact toLower_toLower c

theorem values_eq_map_toList {κ α : Type} {cmp : κ → κ → Ordering} [Std.TransCmp cmp]
    (m : Std.ExtTreeMap κ α cmp) : m.values = m.toList.map Prod.snd := by
  have hfold : m.values = m.foldr (fun _ a as => a :: as) [] := by
    obtain ⟨⟨m⟩⟩ := m
    induction m using Quotient.inductionOn
    rfl
  rw [hfold, Std.ExtTreeMap.foldr_eq_foldr_toList]
  induction m.toList with
  | nil => rfl
  | cons entry rest ih => rw [List.foldr_cons, ih, List.map_cons]

namespace Bindings

variable {b b' : Bindings} {keyword : String} {order : TableOrder String} {c : Creator}
  {t t' : DeclType} {need : Need}

/-! ## What the operations do -/

theorem bindKeyword_eq_ok (h : b.bindKeyword keyword c = .ok b') :
    b.keywordCreator? keyword = none ∧
      b' = ⟨b.byKeyword.insert (Text.foldCase keyword) c, b.byType.insert c.declType c⟩ := by
  unfold bindKeyword at h
  split at h
  · simp at h
  · rename_i hfree
    refine ⟨?_, (Except.ok.inj h).symm⟩
    unfold keywordCreator?
    rw [isBound, Bool.not_eq_true] at hfree
    exact Std.ExtTreeMap.getElem?_eq_none_of_contains_eq_false hfree

theorem anyCreator_eq_some {order : TableOrder String} {m : Std.ExtTreeMap String Creator}
    (h : anyCreator order m t = some c) : c.declType = t ∧ ∃ k : String, m[k]? = some c := by
  obtain ⟨k, -, hk⟩ := List.exists_of_findSome?_eq_some h
  obtain ⟨hbound, htype⟩ := Option.filter_eq_some_iff.mp hk
  exact ⟨of_decide_eq_true htype, k, hbound⟩

theorem anyCreator_isSome (order : TableOrder String) {m : Std.ExtTreeMap String Creator}
    {k : String} (h : m[k]? = some c) : (anyCreator order m c.declType).isSome := by
  unfold anyCreator
  rw [List.findSome?_isSome_iff]
  refine ⟨k, ?_, ?_⟩
  · rw [TableOrder.mem_arrange, Std.ExtTreeMap.mem_keys, Std.ExtTreeMap.mem_iff_isSome_getElem?, h]
    rfl
  · rw [h]
    simp

/-- Unbinding takes the keyword away, and gives its type another creator if one is left. -/
theorem unbindKeyword_eq_ok (h : b.unbindKeyword keyword order = .ok (c, b')) :
    b.keywordCreator? keyword = some c ∧
      b'.byKeyword = b.byKeyword.erase (Text.foldCase keyword) ∧
      ∀ t, b'.typeCreator? t =
        if c.declType = t then anyCreator order b'.byKeyword t else b.typeCreator? t := by
  unfold unbindKeyword at h
  split at h
  · simp at h
  · rename_i c' hbound
    obtain ⟨rfl, rfl⟩ := Prod.mk.inj (Except.ok.inj h)
    refine ⟨hbound, rfl, fun t => ?_⟩
    unfold typeCreator?
    by_cases ht : c'.declType = t
    · subst ht
      rw [if_pos rfl]
      split
      · rename_i other hother
        rw [Std.ExtTreeMap.getElem?_insert_self, hother]
      · rename_i hnone
        rw [Std.ExtTreeMap.getElem?_erase_self, hnone]
    · rw [if_neg ht]
      split
      · simp only [Std.ExtTreeMap.getElem?_insert, DeclType.compare_eq_eq, if_neg ht]
      · simp only [Std.ExtTreeMap.getElem?_erase, DeclType.compare_eq_eq, if_neg ht]

/-! ## Consistency -/

/-- A type has a creator exactly while some keyword is bound to one that makes it. -/
structure Consistent (b : Bindings) : Prop where
  bound : ∀ t c, b.typeCreator? t = some c →
    c.declType = t ∧ ∃ k : String, b.byKeyword[k]? = some c
  typed : ∀ (k : String) c, b.byKeyword[k]? = some c → (b.typeCreator? c.declType).isSome

theorem consistent_empty : ({} : Bindings).Consistent := by
  constructor
  · intro t c h
    simp [typeCreator?] at h
  · intro k c h
    simp at h

theorem Consistent.bindKeyword (h : b.Consistent) (hb : b.bindKeyword keyword c = .ok b') :
    b'.Consistent := by
  obtain ⟨hfree, rfl⟩ := bindKeyword_eq_ok hb
  constructor
  · intro t c' hc'
    unfold typeCreator? at hc'
    simp only [Std.ExtTreeMap.getElem?_insert, DeclType.compare_eq_eq] at hc'
    split at hc'
    · rename_i ht
      obtain rfl := Option.some.inj hc'
      exact ⟨ht, Text.foldCase keyword, Std.ExtTreeMap.getElem?_insert_self⟩
    · obtain ⟨htype, k, hk⟩ := h.bound t c' hc'
      refine ⟨htype, k, ?_⟩
      rw [Std.ExtTreeMap.getElem?_insert, if_neg, hk]
      rw [Std.LawfulEqOrd.compare_eq_iff_eq]
      rintro rfl
      exact absurd (hfree.symm.trans hk) (by simp)
  · intro k c' hk
    unfold typeCreator?
    rw [Std.ExtTreeMap.getElem?_insert] at hk ⊢
    split at hk
    · obtain rfl := Option.some.inj hk
      simp
    · split
      · rfl
      · exact h.typed k c' hk

theorem Consistent.unbindKeyword (h : b.Consistent)
    (hb : b.unbindKeyword keyword order = .ok (c, b')) : b'.Consistent := by
  obtain ⟨hbound, hkeywords, htypes⟩ := unbindKeyword_eq_ok hb
  constructor
  · intro t c' hc'
    rw [htypes t] at hc'
    split at hc'
    · exact anyCreator_eq_some hc'
    · rename_i ht
      obtain ⟨htype, k, hk⟩ := h.bound t c' hc'
      refine ⟨htype, k, ?_⟩
      -- The keyword that was unbound had a creator of another type.
      have hne : ¬compare (Text.foldCase keyword) k = .eq := by
        rw [Std.LawfulEqOrd.compare_eq_iff_eq]
        rintro rfl
        obtain rfl := Option.some.inj (hbound.symm.trans hk)
        exact ht htype
      rw [hkeywords, Std.ExtTreeMap.getElem?_erase, if_neg hne, hk]
  · intro k c' hk
    rw [htypes]
    split
    · rename_i ht
      exact anyCreator_isSome order hk
    · rw [hkeywords, Std.ExtTreeMap.getElem?_erase] at hk
      split at hk
      · simp at hk
      · exact h.typed k c' hk

/-! ## Assigned types and met needs -/

theorem meet_keyword (b : Bindings) (text : String) :
    b.meet (.keyword text) = (b.keywordCreator? text).map Creator.declType := rfl

theorem meet_defaultType (b : Bindings) (t : DeclType) :
    b.meet (.defaultType t) = if (b.typeCreator? t).isSome then some t else none := by
  show (if b.byType.contains t then some t else none) = _
  rw [Std.ExtTreeMap.contains_eq_isSome_getElem?]
  rfl

theorem Consistent.isSome_of_meet (h : b.Consistent) (hm : b.meet need = some t) :
    (b.typeCreator? t).isSome := by
  cases need with
  | keyword text =>
    rw [meet_keyword] at hm
    obtain ⟨c, hc, rfl⟩ := Option.map_eq_some_iff.mp hm
    exact h.typed _ c hc
  | defaultType t' =>
    rw [meet_defaultType] at hm
    split at hm
    · rename_i hsome
      obtain rfl := Option.some.inj hm
      exact hsome
    · simp at hm

/-- A block is assigned the type that meets its need. -/
theorem assign_eq (b : Bindings) (keyword : String) (t : DeclType) :
    b.assign keyword t =
      match b.meet (.of keyword t) with
      | some t' => .assigned t'
      | none => .wanting (.of keyword t) := by
  unfold assign Need.of
  by_cases hempty : keyword = ""
  · rw [if_pos hempty, if_pos hempty, meet_defaultType,
      Std.ExtTreeMap.contains_eq_isSome_getElem?]
    unfold typeCreator?
    cases b.byType[t]? <;> rfl
  · rw [if_neg hempty, if_neg hempty, meet_keyword]
    unfold keywordCreator?
    rw [Text.foldCase_foldCase]
    cases b.byKeyword[Text.foldCase keyword]? <;> rfl

theorem Consistent.isSome_of_assign (h : b.Consistent) (ha : b.assign keyword t = .assigned t') :
    (b.typeCreator? t').isSome := by
  rw [assign_eq] at ha
  split at ha
  · rename_i hmeet
    obtain rfl := Assignment.assigned.inj ha
    exact h.isSome_of_meet hmeet
  · simp at ha

/-- A block is not left waiting for what is there. -/
theorem meet_of_assign (h : b.assign keyword t = .wanting need) : b.meet need = none := by
  rw [assign_eq] at h
  split at h
  · simp at h
  · rename_i hmeet
    obtain rfl := Assignment.wanting.inj h
    exact hmeet

/-- Unbinding meets no need. -/
theorem Consistent.meet_unbindKeyword (h : b.Consistent)
    (hb : b.unbindKeyword keyword order = .ok (c, b')) (hm : b.meet need = none) :
    b'.meet need = none := by
  obtain ⟨hbound, hkeywords, htypes⟩ := unbindKeyword_eq_ok hb
  cases need with
  | keyword text =>
    rw [meet_keyword, Option.map_eq_none_iff] at hm ⊢
    unfold keywordCreator? at hm ⊢
    rw [hkeywords, Std.ExtTreeMap.getElem?_erase, hm, ite_self]
  | defaultType t =>
    rw [meet_defaultType] at hm ⊢
    -- The creator that was unbound is of another type, as its own type had a creator.
    have hne : c.declType ≠ t := by
      rintro rfl
      rw [if_pos (h.typed _ c hbound)] at hm
      simp at hm
    rw [htypes, if_neg hne, hm]

end Bindings

end AssetDecl
