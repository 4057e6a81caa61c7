import AssetDecl.Proofs.BindingHistory

/-!
# Deferred assignments

A block without a type is left waiting under a need. Trying the need again later comes to the same
as assigning the block again later (`Bindings.assign_wanting`): the need is unmet as long as the
block has no type, and is met by the type that the block would be assigned then. Keywords that
differ in the case of ASCII letters alone are assigned alike.
-/

namespace AssetDecl

/-! ## The case of letters -/

namespace Text

variable {s s' : String}

/-- The second text is the first one with some ASCII letters made capital or small. -/
def Recased (s s' : String) : Prop :=
  List.Forall₂ (fun c c' : Char => c' = c ∨ c' = c.toLower ∨ c' = c.toUpper) s.toList s'.toList

instance : Decidable (Recased s s') :=
  inferInstanceAs (Decidable (List.Forall₂ _ _ _))

theorem toLower_of_small {c : Char} (h : 'a'.val ≤ c.val) : c.toLower = c := by
  have hlow : 97 ≤ c.val.toNat := h
  unfold Char.toLower
  rw [dif_neg]
  rintro ⟨-, hhigh⟩
  have hhigh : c.val.toNat ≤ 90 := hhigh
  omega

theorem toLower_toUpper (c : Char) : c.toUpper.toLower = c.toLower := by
  by_cases h : 'a'.val ≤ c.val ∧ c.val ≤ 'z'.val
  · have hlow : 97 ≤ c.val.toNat := h.1
    have hhigh : c.val.toNat ≤ 122 := h.2
    have hval : c.toUpper.val = c.val + ('A'.val - 'a'.val) := by
      unfold Char.toUpper
      rw [dif_pos h]
    have hcapital : c.toUpper.val.toNat = c.val.toNat - 32 := by
      rw [hval, UInt32.toNat_add, show ('A'.val - 'a'.val).toNat = 4294967264 from rfl]
      omega
    rw [toLower_of_small h.1]
    unfold Char.toLower
    rw [dif_pos]
    · apply Char.ext
      show c.toUpper.val + ('a'.val - 'A'.val) = c.val
      rw [hval, UInt32.add_assoc]
      exact UInt32.add_zero c.val
    · constructor
      · show 65 ≤ c.toUpper.val.toNat
        omega
      · show c.toUpper.val.toNat ≤ 90
        omega
  · unfold Char.toUpper
    rw [dif_neg h]

theorem toUpper_toLower_of_capital {c : Char} (h : 'A'.val ≤ c.val ∧ c.val ≤ 'Z'.val) :
    c.toLower.toUpper = c := by
  have hlow : 65 ≤ c.val.toNat := h.1
  have hhigh : c.val.toNat ≤ 90 := h.2
  have hval : c.toLower.val = c.val + ('a'.val - 'A'.val) := by
    unfold Char.toLower
    rw [dif_pos h]
  have hsmall : c.toLower.val.toNat = c.val.toNat + 32 := by
    rw [hval, UInt32.toNat_add, show ('a'.val - 'A'.val).toNat = 32 from rfl]
    omega
  unfold Char.toUpper
  rw [dif_pos]
  · apply Char.ext
    show c.toLower.val + ('A'.val - 'a'.val) = c.val
    rw [hval, UInt32.add_assoc]
    exact UInt32.add_zero c.val
  · constructor
    · show 97 ≤ c.toLower.val.toNat
      omega
    · show c.toLower.val.toNat ≤ 122
      omega

theorem cases_of_toLower_eq {c c' : Char} (h : c'.toLower = c.toLower) :
    c' = c ∨ c' = c.toLower ∨ c' = c.toUpper := by
  by_cases hc' : 'A'.val ≤ c'.val ∧ c'.val ≤ 'Z'.val
  · have hupper := toUpper_toLower_of_capital hc'
    rw [h] at hupper
    by_cases hc : 'A'.val ≤ c.val ∧ c.val ≤ 'Z'.val
    · rw [toUpper_toLower_of_capital hc] at hupper
      exact .inl hupper.symm
    · have hkept : c.toLower = c := by
        unfold Char.toLower
        exact dif_neg hc
      rw [hkept] at hupper
      exact .inr (.inr hupper.symm)
  · have hkept : c'.toLower = c' := by
      unfold Char.toLower
      exact dif_neg hc'
    exact .inr (.inl (hkept.symm.trans h))

theorem Recased.foldCase_eq (h : Recased s s') : foldCase s' = foldCase s := by
  have hmap : s'.toList.map Char.toLower = s.toList.map Char.toLower := by
    unfold Recased at h
    generalize s.toList = cs, s'.toList = cs' at h
    induction h with
    | nil => rfl
    | cons hc _ ih =>
      rw [List.map_cons, List.map_cons, ih]
      rcases hc with rfl | rfl | rfl
      · rfl
      · rw [toLower_toLower]
      · rw [toLower_toUpper]
  rw [foldCase, hmap, foldCase]

/-- Texts that fold to the same one are equal up to the case of ASCII letters. -/
theorem recased_iff : Recased s s' ↔ foldCase s' = foldCase s := by
  refine ⟨Recased.foldCase_eq, fun h => ?_⟩
  have hmap : s'.toList.map Char.toLower = s.toList.map Char.toLower := by
    rw [← toList_foldCase, ← toList_foldCase, h]
  unfold Recased
  generalize s.toList = cs, s'.toList = cs' at hmap
  induction cs generalizing cs' with
  | nil =>
    rw [List.map_nil, List.map_eq_nil_iff] at hmap
    rw [hmap]
    exact .nil
  | cons c cs ih =>
    obtain ⟨c', cs', rfl, hc, hcs⟩ := List.map_eq_cons_iff.mp hmap
    exact .cons (cases_of_toLower_eq hc) (ih cs' hcs)

theorem Recased.eq_empty_iff (h : Recased s s') : s' = "" ↔ s = "" := by
  rw [← String.toList_eq_nil_iff, ← String.toList_eq_nil_iff, ← List.length_eq_zero_iff,
    ← List.length_eq_zero_iff, h.length_eq]

end Text

/-- Keywords ask for the same in any case of letters. -/
theorem Need.of_recased {keyword keyword' : String} (h : Text.Recased keyword keyword')
    (t : DeclType) : Need.of keyword' t = Need.of keyword t := by
  rw [Need.of, Need.of, h.foldCase_eq, if_congr h.eq_empty_iff rfl rfl]

namespace Bindings

variable {b : Bindings} {keyword : String} {t : DeclType} {need : Need}

/-! ## Needs of blocks -/

theorem assign_recased {keyword' : String} (h : Text.Recased keyword keyword') (b : Bindings)
    (t : DeclType) : b.assign keyword' t = b.assign keyword t := by
  rw [assign_eq, assign_eq, Need.of_recased h]

/-- A block waits for what its keyword asks for. -/
theorem need_eq_of_assign (h : b.assign keyword t = .wanting need) : need = .of keyword t := by
  rw [assign_eq] at h
  split at h
  · simp at h
  · exact (Assignment.wanting.inj h).symm

/-- The type that meets the need of a block is the one that the block is assigned. -/
theorem meet_of_eq_some_iff (b : Bindings) (keyword : String) (t t' : DeclType) :
    b.meet (.of keyword t) = some t' ↔ b.assign keyword t = .assigned t' := by
  rw [assign_eq]
  cases b.meet (.of keyword t) with
  | none => simp
  | some met => simp

/-- What a block waits for is not there, is what is worked out from its keyword again when it cannot
be installed, and is met by other bindings exactly if they assign the block a type, and by that
type. The case of ASCII letters changes nothing about it. -/
theorem assign_wanting (b : Bindings) (keyword : String) (t : DeclType) :
    (∀ need, b.assign keyword t = .wanting need →
      b.meet need = none ∧
      (∀ block : BlockSource, block.keyword = keyword → Need.of block.keyword t = need) ∧
      ∀ (b' : Bindings) (t' : DeclType),
        b'.meet need = some t' ↔ b'.assign keyword t = .assigned t') ∧
    ∀ keyword', Text.Recased keyword keyword' →
      Need.of keyword' t = Need.of keyword t ∧
      ∀ b' : Bindings, b'.assign keyword' t = b'.assign keyword t := by
  constructor
  · intro need hwanting
    obtain rfl := need_eq_of_assign hwanting
    refine ⟨meet_of_assign hwanting, ?_, fun b' t' => meet_of_eq_some_iff b' keyword t t'⟩
    rintro block rfl
    rfl
  · intro keyword' hrecased
    exact ⟨Need.of_recased hrecased t, fun b' => assign_recased hrecased b' t⟩

/-- A bound empty keyword gives blocks without a keyword no type. -/
theorem assign_wanting_shader :
    let sound : DeclType := ⟨"sound"⟩
    let b := run [.bind "" (.plain sound)]
    let b' := run [.bind "SHADER" (.plain sound), .bind "stone" (.plain ⟨"material"⟩)]
    b.assign "" ⟨"material"⟩ = .wanting (.defaultType ⟨"material"⟩) ∧
      b.assign "Shader" ⟨"material"⟩ = .wanting (.keyword "shader") ∧
      Text.Recased "Shader" "sHadeR" ∧
      b.meet (.defaultType ⟨"material"⟩) = none ∧
      b.meet (.keyword "shader") = none ∧
      b'.meet (.keyword "shader") = some sound ∧
      b'.meet (.defaultType ⟨"material"⟩) = some ⟨"material"⟩ ∧
      b'.assign "sHadeR" ⟨"material"⟩ = .assigned sound := by
  intro sound b b'
  have hempty : b.assign "" ⟨"material"⟩ = .wanting (.defaultType ⟨"material"⟩) := by decide
  have hshader : b.assign "Shader" ⟨"material"⟩ = .wanting (.keyword "shader") := by decide
  have hrecased : Text.Recased "Shader" "sHadeR" := by decide
  obtain ⟨hunmet, -, hmeet⟩ := (assign_wanting b "" ⟨"material"⟩).1 _ hempty
  obtain ⟨hunmet', -, hmeet'⟩ := (assign_wanting b "Shader" ⟨"material"⟩).1 _ hshader
  have hsame := ((assign_wanting b "Shader" ⟨"material"⟩).2 _ hrecased).2 b'
  have hassigned : b'.assign "Shader" ⟨"material"⟩ = .assigned sound := by decide
  exact ⟨hempty, hshader, hrecased, hunmet, hunmet', (hmeet' b' sound).mpr hassigned,
    (hmeet b' ⟨"material"⟩).mpr (by decide), hsame.trans hassigned⟩

end Bindings

end AssetDecl
