import AssetDecl.Proofs.PathComponents

/-!
# Prefixes of paths

What of a path stands behind the components of another is determined (`Path.Behind.unique`), and it
is what is left when the other is stripped off (`Path.behind_of_stripPrefix`). Joined to the other
it gives the path again.
-/

namespace AssetDecl

/-- Of two ways to part a text one cuts off more. -/
theorem exists_append_of_append_eq {s t s' t' : String} (h : s ++ t = s' ++ t') :
    (∃ m, s' = s ++ m ∧ t = m ++ t') ∨ ∃ m, s = s' ++ m ∧ t' = m ++ t := by
  have hlists : s.toList ++ t.toList = s'.toList ++ t'.toList := by
    rw [← String.toList_append, h, String.toList_append]
  rcases List.append_eq_append_iff.1 hlists with ⟨cs, hs, ht⟩ | ⟨cs, hs, ht⟩
  · refine .inl ⟨String.ofList cs, ?_, ?_⟩ <;>
      rw [← String.toList_inj, String.toList_append, String.toList_ofList] <;> assumption
  · refine .inr ⟨String.ofList cs, ?_, ?_⟩ <;>
      rw [← String.toList_inj, String.toList_append, String.toList_ofList] <;> assumption

namespace Path

variable {p base rest : Path} {s t : String}

/-! ## What stands behind a prefix -/

/-- A piece that stands for a component comes first. -/
def StartsInside (s : String) : Prop :=
  ∃ piece, (pieces ⟨s⟩).head? = some piece ∧ piece ≠ "" ∧ piece ≠ "."

/-- What of a path stands behind the components of another. It starts with a component itself, if it
is not all of the path and there is anything. -/
def Behind (base p : Path) (rest : String) : Prop :=
  ∃ lead : String, p.text = lead ++ rest ∧ components ⟨lead⟩ = base.components ∧
    (lead = "" ∨ rest = "" ∨ lead.toList.getLast? = some '/' ∧ StartsInside rest)

theorem StartsInside.isAbsolute_eq (h : StartsInside s) : isAbsolute ⟨s⟩ = false := by
  obtain ⟨piece, hpiece, hne, -⟩ := h
  rw [Bool.eq_false_iff]
  intro habsolute
  rw [head?_pieces_of_isAbsolute habsolute] at hpiece
  exact hne (Option.some.inj hpiece).symm

theorem StartsInside.ne_nil (h : StartsInside s) : (pieces ⟨s⟩).filterMap inner ≠ [] := by
  obtain ⟨piece, hpiece, hne⟩ := h
  obtain ⟨c, hc⟩ := Option.isSome_iff_exists.1 (isSome_inner_iff.2 hne)
  exact List.ne_nil_of_mem (List.mem_filterMap.2 ⟨piece, List.mem_of_mem_head? hpiece, hc⟩)

theorem ne_empty_of_getLast? {c : Char} (hs : s.toList.getLast? = some c) : s ≠ "" := by
  rintro rfl
  exact absurd hs nofun

theorem join_of_slash (hs : s.toList.getLast? = some '/') (ht : isAbsolute ⟨t⟩ = false) :
    join ⟨s⟩ ⟨t⟩ = ⟨s ++ t⟩ := by
  unfold join
  rw [if_neg (by simp [ht]), if_pos (by simp [hs])]

/-- Behind a slash a text adds the components of all its pieces. -/
theorem components_append (hs : s.toList.getLast? = some '/') (ht : isAbsolute ⟨t⟩ = false) :
    components ⟨s ++ t⟩ = components ⟨s⟩ ++ (pieces ⟨t⟩).filterMap inner := by
  rw [← join_of_slash hs ht, components_join (ne_empty_of_getLast? hs) ht]

theorem exists_of_getLast?_slash (hs : s.toList.getLast? = some '/') : ∃ t, s = t ++ "/" := by
  obtain ⟨cs, hcs⟩ := List.getLast?_eq_some_iff.1 hs
  refine ⟨String.ofList cs, ?_⟩
  rw [← String.toList_inj, hcs, String.toList_append, String.toList_ofList]
  rfl

/-- Two parts behind one prefix do not differ by pieces that stand for nothing. -/
theorem middle_eq_empty {lead middle rest : String}
    (hcomponents : components ⟨lead ++ middle⟩ = components ⟨lead⟩)
    (h : middle ++ rest = "" ∨ lead.toList.getLast? = some '/' ∧ StartsInside (middle ++ rest))
    (h' : rest = "" ∨ (lead ++ middle).toList.getLast? = some '/') : middle = "" := by
  by_contra hne
  obtain ⟨hlead, hstarts⟩ :=
    h.resolve_left fun hempty => hne (String.append_eq_empty_iff.1 hempty).1
  have hmiddle : StartsInside middle := by
    rcases h' with rfl | hends
    · rwa [String.append_empty] at hstarts
    · rw [String.toList_append,
        List.getLast?_append_of_ne_nil _ (mt String.toList_eq_nil_iff.1 hne)] at hends
      obtain ⟨t, rfl⟩ := exists_of_getLast?_slash hends
      obtain ⟨piece, hpiece, hcomponent⟩ := hstarts
      rw [pieces_append, List.head?_append_of_ne_nil _ (pieces_ne_nil _)] at hpiece
      refine ⟨piece, ?_, hcomponent⟩
      rw [← String.append_empty (s := t ++ "/"), pieces_append,
        List.head?_append_of_ne_nil _ (pieces_ne_nil _), hpiece]
  rw [components_append hlead hmiddle.isAbsolute_eq, List.append_right_eq_self] at hcomponents
  exact hmiddle.ne_nil hcomponents

theorem Behind.unique {rest rest' : String} (h : Behind base p rest) (h' : Behind base p rest') :
    rest = rest' := by
  obtain ⟨lead, htext, hlead, hstarts⟩ := h
  obtain ⟨lead', htext', hlead', hstarts'⟩ := h'
  have hsame : components ⟨lead⟩ = components ⟨lead'⟩ := hlead.trans hlead'.symm
  have hempty : lead = "" ↔ lead' = "" := text_eq_empty_congr hsame
  rw [htext] at htext'
  by_cases hne : lead = ""
  · rwa [hempty.1 hne, hne, String.empty_append, String.empty_append] at htext'
  have hstarts := hstarts.resolve_left hne
  have hstarts' := hstarts'.resolve_left (mt hempty.2 hne)
  rcases exists_append_of_append_eq htext' with ⟨middle, rfl, rfl⟩ | ⟨middle, rfl, rfl⟩
  · rw [middle_eq_empty hsame.symm hstarts (hstarts'.imp_right And.left), String.empty_append]
  · rw [middle_eq_empty hsame hstarts' (hstarts.imp_right And.left), String.empty_append]

/-! ## Stripping a prefix -/

theorem dropComponents_suffix (n : Nat) (parts : List (String × Option Component)) :
    dropComponents n parts <:+ parts := by
  induction n, parts using dropComponents.induct with
  | case1 parts => rw [dropComponents]
  | case2 n => exact List.suffix_refl _
  | case3 n piece parts ih => exact ih.trans (List.suffix_cons _ _)
  | case4 n piece c parts ih => exact ih.trans (List.suffix_cons _ _)

theorem filterMap_dropComponents (n : Nat) (parts : List (String × Option Component)) :
    (dropComponents n parts).filterMap Prod.snd = (parts.filterMap Prod.snd).drop n := by
  induction n, parts using dropComponents.induct with
  | case1 parts => rw [dropComponents, List.drop_zero]
  | case2 n => rfl
  | case3 n piece parts ih => exact ih
  | case4 n piece c parts ih => exact ih

theorem filterMap_dropWhile_isNone (parts : List (String × Option Component)) :
    (parts.dropWhile (·.2.isNone)).filterMap Prod.snd = parts.filterMap Prod.snd := by
  induction parts with
  | nil => rfl
  | cons part parts ih =>
    obtain ⟨piece, c⟩ := part
    cases c with
    | none => exact ih
    | some c => rfl

theorem isSome_of_head?_dropWhile {parts : List (String × Option Component)}
    {x : String × Option Component} (h : (parts.dropWhile (·.2.isNone)).head? = some x) :
    x.2.isSome = true := by
  have hnot := List.head?_dropWhile_not (·.2.isNone) parts
  rw [h] at hnot
  simpa [Option.isSome_iff_ne_none] using hnot

theorem dropWhile_isNone_eq_self {parts : List (String × Option Component)}
    {x : String × Option Component} (h : parts.head? = some x) (hx : x.2.isSome = true) :
    parts.dropWhile (·.2.isNone) = parts := by
  obtain ⟨rest, rfl⟩ := List.head?_eq_some_iff.1 h
  exact List.dropWhile_cons_of_neg (by simpa [Option.isSome_iff_ne_none] using hx)

theorem getLast?_of_suffix {α : Type} {xs ys : List α} {x : α} (h : xs <:+ ys)
    (hx : xs.getLast? = some x) : ys.getLast? = some x := by
  obtain ⟨front, rfl⟩ := h
  rw [List.getLast?_append, hx]
  rfl

/-- Where the last piece stands for a component, only pieces in front are trimmed away. -/
theorem trim_eq_dropWhile {parts : List (String × Option Component)}
    (hlast : ∀ x, parts.getLast? = some x → x.2.isSome = true) :
    trim parts = parts.dropWhile (·.2.isNone) := by
  unfold trim
  cases hx : (parts.dropWhile (·.2.isNone)).getLast? with
  | none =>
    rw [List.getLast?_eq_none_iff] at hx
    rw [hx]
    rfl
  | some x =>
    have hend := getLast?_of_suffix (List.dropWhile_suffix _) hx
    dsimp only
    rw [dropWhile_isNone_eq_self (List.head?_reverse.trans hx) (hlast x hend), List.reverse_reverse]

/-- What is left when a prefix is stripped off a path that ends in a component stands behind it. -/
theorem behind_of_stripPrefix (hlast : ∀ x, p.parts.getLast? = some x → x.2.isSome = true)
    (h : p.stripPrefix base = some rest) : Behind base p rest.text := by
  unfold stripPrefix at h
  obtain ⟨hbegins, hrest⟩ := Option.ite_none_right_eq_some.1 h
  rw [List.isPrefixOf_iff_prefix] at hbegins
  have hp : p.text ≠ "" := by
    obtain ⟨text⟩ := p
    rintro rfl
    exact Bool.false_ne_true (hlast ("", none) rfl)
  obtain ⟨first, c, tail, hparts, hpieces, -⟩ := exists_parts_cons hp
  have hsuffix := dropComponents_suffix base.components.length p.parts
  rw [trim_eq_dropWhile fun x hx => hlast x (getLast?_of_suffix hsuffix hx)] at hrest
  by_cases hbase : base.text = ""
  · refine ⟨"", ?_, by rw [components_of_empty hbase]; rfl, .inl rfl⟩
    rw [components_of_empty hbase, List.length_nil, dropComponents,
      dropWhile_isNone_eq_self (by rw [hparts]; rfl) rfl, map_fst_parts,
      intercalate_pieces] at hrest
    rw [← Option.some.inj hrest, String.empty_append]
  -- The first piece of the path goes with the prefix, so all pieces of the rest are inner ones.
  obtain ⟨n, hn⟩ := Nat.exists_eq_succ_of_ne_zero
    (mt List.length_eq_zero_iff.1 (mt components_eq_nil_iff.1 hbase))
  have hinner : dropComponents base.components.length p.parts <:+ tail.map part := by
    rw [hn, hparts]
    exact dropComponents_suffix n _
  obtain ⟨frontParts, hfrontParts⟩ := (List.dropWhile_suffix (·.2.isNone)).trans hinner
  obtain ⟨front, kept, rfl, -, hkept⟩ := List.map_eq_append_iff.1 hfrontParts.symm
  have hcomponents : p.components = base.components ++ kept.filterMap inner := by
    rw [← filterMap_snd_map_part, hkept, filterMap_dropWhile_isNone, filterMap_dropComponents]
    exact (List.prefix_iff_eq_append.1 hbegins).symm
  have hfst : (kept.map part).map Prod.fst = kept := by
    rw [List.map_map]
    exact List.map_id kept
  rw [← hkept, hfst] at hrest
  obtain rfl := Option.some.inj hrest
  by_cases hne : kept = []
  · subst hne
    exact ⟨p.text, String.append_empty.symm, hcomponents.trans (List.append_nil _),
      .inr (.inl rfl)⟩
  have hslash : ∀ piece ∈ kept, '/' ∉ piece.toList := fun piece hpiece =>
    slash_notMem_of_mem_pieces
      (hpieces ▸ List.mem_cons_of_mem _ (List.mem_append_right _ hpiece))
  have hstarts : StartsInside ("/".intercalate kept) := by
    obtain ⟨piece, others, rfl⟩ := List.exists_cons_of_ne_nil hne
    refine ⟨piece, by rw [pieces_intercalate hne hslash]; rfl, isSome_inner_iff.1 ?_⟩
    exact isSome_of_head?_dropWhile (x := part piece) (by rw [← hkept]; rfl)
  have htext : p.text = "/".intercalate (first :: front) ++ "/" ++ "/".intercalate kept := by
    rw [← p.intercalate_pieces, hpieces, ← List.cons_append,
      String.intercalate_append_of_ne_nil (List.cons_ne_nil _ _) hne]
  have hends : ("/".intercalate (first :: front) ++ "/").toList.getLast? = some '/' := by
    rw [String.toList_append]
    exact List.getLast?_concat
  refine ⟨_, htext, ?_, .inr (.inr ⟨hends, hstarts⟩)⟩
  have hsum := components_append hends hstarts.isAbsolute_eq
  rw [← htext, pieces_intercalate hne hslash] at hsum
  exact List.append_cancel_right (hsum.symm.trans hcomponents)

/-- A path begins with the components that something stands behind. -/
theorem Behind.begins {rest : String} (h : Behind base p rest) :
    base.components <+: p.components := by
  obtain ⟨lead, htext, hlead, hcases⟩ := h
  obtain ⟨text⟩ := p
  obtain rfl : text = lead ++ rest := htext
  rw [← hlead]
  rcases hcases with rfl | rfl | ⟨hends, hstarts⟩
  · exact List.nil_prefix
  · rw [String.append_empty]
  · rw [components_append hends hstarts.isAbsolute_eq]
    exact List.prefix_append _ _

theorem stripPrefix_eq_none_iff :
    p.stripPrefix base = none ↔ ¬base.components <+: p.components := by
  unfold stripPrefix
  rw [← List.isPrefixOf_iff_prefix]
  split <;> simp_all

/-! ## Joining the prefix again -/

/-- What stands behind a prefix is relative, and joined to the prefix it has the components of the
path. -/
theorem Behind.components_join {rest : String} (h : Behind base p rest) (hbase : base.text ≠ "") :
    isAbsolute ⟨rest⟩ = false ∧ (base.join ⟨rest⟩).components = p.components := by
  obtain ⟨lead, htext, hlead, hcases⟩ := h
  obtain ⟨text⟩ := p
  obtain rfl : text = lead ++ rest := htext
  have hne : lead ≠ "" := mt (text_eq_empty_congr hlead).1 hbase
  rcases hcases.resolve_left hne with rfl | ⟨hends, hstarts⟩
  · rw [String.append_empty, hlead, Path.components_join hbase rfl]
    exact ⟨rfl, List.append_nil _⟩
  · have hrelative := hstarts.isAbsolute_eq
    rw [components_append hends hrelative, hlead, Path.components_join hbase hrelative]
    exact ⟨hrelative, rfl⟩

/-- Joined to the prefix, what stands behind it ends as the path does, if there is anything. -/
theorem Behind.getLast?_parts_join {rest : String} (h : Behind base p rest) (hbase : base.text ≠ "")
    (hrest : rest ≠ "") : (base.join ⟨rest⟩).parts.getLast? = p.parts.getLast? := by
  obtain ⟨hrelative, -⟩ := h.components_join hbase
  obtain ⟨lead, htext, hlead, hcases⟩ := h
  obtain ⟨text⟩ := p
  obtain rfl : text = lead ++ rest := htext
  have hne : lead ≠ "" := mt (text_eq_empty_congr hlead).1 hbase
  obtain ⟨hends, hstarts⟩ := (hcases.resolve_left hne).resolve_left hrest
  have hparts : ∀ {p : Path}, p.text ≠ "" →
      (p.join ⟨rest⟩).parts.getLast? = ((pieces ⟨rest⟩).map part).getLast? := by
    intro p hp
    obtain ⟨front, -, hfront⟩ := exists_parts_join hp
    rw [hfront _ hrelative, List.getLast?_append_of_ne_nil]
    simpa using pieces_ne_nil _
  rw [← join_of_slash hends hrelative, hparts hbase, hparts hne]

end Path

end AssetDecl
