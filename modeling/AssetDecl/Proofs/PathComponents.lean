import AssetDecl.Path
import Mathlib.Tactic

/-!
# Components of paths

A path is cut at its slashes into pieces, and every piece past the first one stands for the same
component wherever it is. So the components of a path joined to another are added to those of the
other (`Path.components_join`), and the path of an entry has the components of its directory and its
name (`Path.components_below`).
-/

namespace AssetDecl

/-- The pieces of a list hold all its elements but the separators. -/
theorem mem_splitOn_iff {α : Type} [DecidableEq α] {sep a : α} {as : List α} (ha : a ≠ sep) :
    (∃ piece ∈ as.splitOn sep, a ∈ piece) ↔ a ∈ as := by
  induction as with
  | nil => simp
  | cons b as ih =>
    rw [List.splitOn_cons_eq_if_modifyHead, List.mem_cons, ← ih]
    by_cases hb : b = sep
    · simp [hb, ha]
    · rw [if_neg (by simpa using hb)]
      cases hpieces : as.splitOn sep with
      | nil => exact absurd hpieces (List.splitOn_ne_nil _ _)
      | cons piece pieces => simp [or_assoc]

theorem sep_notMem_of_mem_splitOn {α : Type} [DecidableEq α] {sep : α} {as piece : List α}
    (h : piece ∈ as.splitOn sep) : sep ∉ piece := by
  induction as generalizing piece with
  | nil =>
    rw [List.splitOn_nil, List.mem_singleton] at h
    exact h ▸ List.not_mem_nil
  | cons b as ih =>
    rw [List.splitOn_cons_eq_if_modifyHead] at h
    by_cases hb : b = sep
    · rw [if_pos (beq_iff_eq.2 hb), List.mem_cons] at h
      rcases h with rfl | h
      · exact List.not_mem_nil
      · exact ih h
    · rw [if_neg (by simpa using hb)] at h
      cases hpieces : as.splitOn sep with
      | nil => exact absurd hpieces (List.splitOn_ne_nil _ _)
      | cons first pieces =>
        rw [hpieces, List.modifyHead_cons, List.mem_cons] at h
        rw [hpieces] at ih
        rcases h with rfl | h
        · rw [List.mem_cons, not_or]
          exact ⟨fun heq => hb heq.symm, ih List.mem_cons_self⟩
        · exact ih (List.mem_cons_of_mem _ h)

namespace Path

variable {p q dir : Path} {piece name : String} {names : List String}

/-! ## Pieces -/

theorem cut_eq_splitOn (cs : List Char) : cut cs = cs.splitOn '/' := by
  induction cs with
  | nil => rfl
  | cons c cs ih =>
    rw [List.splitOn_cons_eq_if_modifyHead, cut, ih]
    by_cases hslash : c = '/'
    · rw [if_pos hslash, if_pos (beq_iff_eq.2 hslash)]
    · rw [if_neg hslash, if_neg (by simpa using hslash)]
      cases hpieces : cs.splitOn '/' with
      | nil => exact absurd hpieces (List.splitOn_ne_nil _ _)
      | cons piece pieces => rfl

/-- The texts between the slashes of a path. -/
def pieces (p : Path) : List String :=
  (cut p.text.toList).map String.ofList

theorem pieces_ne_nil (p : Path) : p.pieces ≠ [] := by
  unfold pieces
  rw [cut_eq_splitOn, ne_eq, List.map_eq_nil_iff]
  exact List.splitOn_ne_nil _ _

theorem slash_notMem_of_mem_pieces (h : piece ∈ p.pieces) : '/' ∉ piece.toList := by
  obtain ⟨cs, hcs, rfl⟩ := List.mem_map.1 h
  rw [cut_eq_splitOn] at hcs
  rw [String.toList_ofList]
  exact sep_notMem_of_mem_splitOn hcs

theorem mem_pieces_iff {c : Char} (hc : c ≠ '/') :
    (∃ piece ∈ p.pieces, c ∈ piece.toList) ↔ c ∈ p.text.toList := by
  unfold pieces
  rw [← mem_splitOn_iff hc, cut_eq_splitOn]
  simp

/-- A path is its pieces with slashes between them. -/
theorem intercalate_pieces (p : Path) : "/".intercalate p.pieces = p.text := by
  rw [← String.toList_inj, String.toList_intercalate, pieces, cut_eq_splitOn, List.map_map]
  have hid : String.toList ∘ String.ofList = id := funext fun _ => String.toList_ofList
  rw [hid, List.map_id]
  exact List.intercalate_splitOn '/'

theorem pieces_intercalate (hne : names ≠ []) (hslash : ∀ name ∈ names, '/' ∉ name.toList) :
    pieces ⟨"/".intercalate names⟩ = names := by
  unfold pieces
  rw [cut_eq_splitOn, String.toList_intercalate]
  have hsplit : ("/".toList.intercalate (names.map String.toList)).splitOn '/' =
      names.map String.toList :=
    List.splitOn_intercalate '/' (by simpa using hslash) (by simpa using hne)
  rw [hsplit, List.map_map]
  have hid : String.ofList ∘ String.toList = id := funext fun _ => String.ofList_toList
  rw [hid, List.map_id]

/-! ## Parts -/

/-- A piece past the first one with its component. -/
def part (piece : String) : String × Option Component :=
  (piece, inner piece)

/-- Pieces with their components. -/
def tagged (absolute : Bool) : List String → List (String × Option Component)
  | [] => []
  | first :: rest =>
    (first, if absolute then some .root else if first = "." then some .here else inner first) ::
      rest.map part

theorem parts_eq (p : Path) : p.parts = tagged p.isAbsolute p.pieces := by
  unfold parts tagged pieces
  cases (cut p.text.toList).map String.ofList <;> rfl

theorem tagged_append {absolute : Bool} {xs : List String} (ys : List String) (hxs : xs ≠ []) :
    tagged absolute (xs ++ ys) = tagged absolute xs ++ ys.map part := by
  cases xs with
  | nil => exact absurd rfl hxs
  | cons x xs => exact congrArg (List.cons _) List.map_append

theorem map_fst_parts (p : Path) : p.parts.map Prod.fst = p.pieces := by
  rw [parts_eq]
  cases p.pieces with
  | nil => rfl
  | cons first rest =>
    unfold tagged
    rw [List.map_cons, List.map_map]
    exact congrArg (List.cons first) (List.map_id rest)

theorem filterMap_snd_map_part (xs : List String) :
    (xs.map part).filterMap Prod.snd = xs.filterMap inner :=
  List.filterMap_map

theorem isSome_inner_iff : (inner piece).isSome = true ↔ piece ≠ "" ∧ piece ≠ "." := by
  unfold inner
  split
  · rename_i h
    simpa [or_iff_not_imp_left] using h
  · rename_i h
    rw [Bool.or_eq_true, decide_eq_true_eq, decide_eq_true_eq, not_or] at h
    split <;> exact iff_of_true rfl h

/-- Past the first piece there is no component for the slash in front or the dot at the start. -/
theorem inner_eq_some {c : Component} (h : inner piece = some c) : c = .up ∨ c = .name piece := by
  unfold inner at h
  split at h
  · exact absurd h nofun
  · split at h
    · exact .inl (Option.some.inj h).symm
    · exact .inr (Option.some.inj h).symm

theorem components_of_empty (hp : p.text = "") : p.components = [] := by
  obtain ⟨text⟩ := p
  subst hp
  rfl

theorem isAbsolute_append (hp : p.text ≠ "") (s : String) :
    isAbsolute ⟨p.text ++ s⟩ = p.isAbsolute := by
  unfold isAbsolute
  rw [String.toList_append, List.head?_append_of_ne_nil]
  exact fun h => hp (String.toList_eq_nil_iff.1 h)

theorem head?_pieces_of_isAbsolute (hp : p.isAbsolute = true) : p.pieces.head? = some "" := by
  unfold isAbsolute at hp
  obtain ⟨cs, hcs⟩ := List.head?_eq_some_iff.1 (beq_iff_eq.1 hp)
  unfold pieces
  rw [hcs]
  rfl

/-- The first piece of a path that is not empty stands for a component. -/
theorem exists_parts_cons (hp : p.text ≠ "") :
    ∃ first c rest, p.parts = (first, some c) :: rest.map part ∧ p.pieces = first :: rest ∧
      (p.isAbsolute = true ↔ c = .root) := by
  cases hpieces : p.pieces with
  | nil => exact absurd hpieces p.pieces_ne_nil
  | cons first rest =>
    rw [parts_eq, hpieces]
    cases habsolute : p.isAbsolute with
    | true => exact ⟨first, .root, rest, rfl, rfl, iff_of_true rfl rfl⟩
    | false =>
      unfold tagged
      by_cases hdot : first = "."
      · exact ⟨first, .here, rest, by simp [hdot], rfl, iff_of_false Bool.false_ne_true nofun⟩
      have hempty : first ≠ "" := by
        rintro rfl
        have htext := p.intercalate_pieces
        rw [hpieces] at htext
        cases rest with
        | nil => exact hp (htext.symm.trans String.intercalate_singleton)
        | cons next rest =>
          rw [String.intercalate_cons_cons] at htext
          unfold isAbsolute at habsolute
          rw [← htext] at habsolute
          simp at habsolute
      obtain ⟨c, hc⟩ := Option.isSome_iff_exists.1 (isSome_inner_iff.2 ⟨hempty, hdot⟩)
      refine ⟨first, c, rest, by simp [hdot, hc], rfl, iff_of_false Bool.false_ne_true ?_⟩
      rintro rfl
      exact absurd (inner_eq_some hc) (by simp)

theorem isAbsolute_iff : p.isAbsolute = true ↔ p.components.head? = some .root := by
  by_cases hp : p.text = ""
  · rw [components_of_empty hp, isAbsolute, hp]
    exact iff_of_false Bool.false_ne_true nofun
  · obtain ⟨first, c, rest, hparts, -, habsolute⟩ := exists_parts_cons hp
    rw [components, hparts, habsolute]
    simp

theorem components_eq_nil_iff : p.components = [] ↔ p.text = "" := by
  refine ⟨fun hnil => not_not.1 fun hp => ?_, components_of_empty⟩
  obtain ⟨first, c, rest, hparts, -⟩ := exists_parts_cons hp
  rw [components, hparts] at hnil
  simp at hnil

theorem text_eq_empty_congr (h : p.components = q.components) : p.text = "" ↔ q.text = "" := by
  rw [← components_eq_nil_iff, h, components_eq_nil_iff]

/-! ## Joined paths -/

theorem pieces_append (s t : String) : pieces ⟨s ++ "/" ++ t⟩ = pieces ⟨s⟩ ++ pieces ⟨t⟩ := by
  unfold pieces
  rw [cut_eq_splitOn, cut_eq_splitOn, cut_eq_splitOn, ← List.map_append,
    ← List.splitOn_append_cons_self]
  simp

/-- A relative path that is joined to another adds its own pieces, the first one included. -/
theorem exists_parts_join (hp : p.text ≠ "") :
    ∃ front, front.filterMap Prod.snd = p.components ∧
      ∀ q : Path, q.isAbsolute = false → (p.join q).parts = front ++ q.pieces.map part := by
  by_cases hslash : p.text.toList.getLast? = some '/'
  · obtain ⟨cs, hcs⟩ := List.getLast?_eq_some_iff.1 hslash
    have htext : p.text = String.ofList cs ++ "/" := by
      rw [← String.toList_inj, hcs, String.toList_append, String.toList_ofList]
      rfl
    have hpieces : p.pieces = pieces ⟨String.ofList cs⟩ ++ pieces ⟨""⟩ := by
      rw [← pieces_append, ← htext, String.append_empty]
    refine ⟨tagged p.isAbsolute (pieces ⟨String.ofList cs⟩), ?_, fun q hq => ?_⟩
    · unfold components
      rw [p.parts_eq, hpieces, tagged_append _ (pieces_ne_nil _), List.filterMap_append]
      exact (List.append_nil _).symm
    · unfold join
      rw [if_neg (by simp [hq]), if_pos (by simp [hslash]), parts_eq, isAbsolute_append hp, htext,
        pieces_append, tagged_append _ (pieces_ne_nil _)]
  · refine ⟨p.parts, rfl, fun q hq => ?_⟩
    unfold join
    rw [if_neg (by simp [hq]), if_neg (by simp [hp, hslash]), parts_eq, String.append_assoc,
      isAbsolute_append hp, ← String.append_assoc, pieces_append,
      tagged_append _ (pieces_ne_nil _), ← parts_eq]

theorem components_join (hp : p.text ≠ "") (hq : q.isAbsolute = false) :
    (p.join q).components = p.components ++ q.pieces.filterMap inner := by
  obtain ⟨front, hfront, hparts⟩ := exists_parts_join hp
  unfold components
  rw [hparts q hq, List.filterMap_append, hfront, filterMap_snd_map_part, components]

theorem join_of_isAbsolute (hq : q.isAbsolute = true) : p.join q = q :=
  if_pos hq

theorem join_of_empty (hp : p.text = "") : p.join q = q := by
  unfold join
  split
  · rfl
  · rw [if_pos (by simp [hp]), hp, String.empty_append]

/-! ## Names of entries -/

/-- The path of an entry that some names lead to, each in the directory of the one before. -/
def below (dir : Path) (names : List String) : Path :=
  names.foldl (fun p name => p.join ⟨name⟩) dir

/-- The text can be the name of an entry of a directory. -/
def Plain (name : String) : Prop :=
  name ≠ "" ∧ name ≠ "." ∧ name ≠ ".." ∧ '/' ∉ name.toList

instance : DecidablePred Plain := fun _ => inferInstanceAs (Decidable (_ ∧ _ ∧ _ ∧ _))

theorem Plain.inner_eq (h : Plain name) : inner name = some (.name name) := by
  unfold inner
  rw [if_neg (by simp [h.1, h.2.1]), if_neg h.2.2.1]

theorem Plain.pieces_eq (h : Plain name) : pieces ⟨name⟩ = [name] := by
  unfold pieces
  rw [cut_eq_splitOn, List.splitOn_eq_singleton h.2.2.2, List.map_singleton, String.ofList_toList]

theorem Plain.isAbsolute_eq (h : Plain name) : isAbsolute ⟨name⟩ = false := by
  unfold isAbsolute
  rw [beq_eq_false_iff_ne]
  exact fun hhead => h.2.2.2 (List.mem_of_mem_head? hhead)

/-- The path of an entry ends in its name. -/
theorem Plain.exists_parts_join (h : Plain name) (p : Path) :
    ∃ front, (p.join ⟨name⟩).parts = front ++ [(name, some (.name name))] ∧
      front.filterMap Prod.snd = p.components := by
  by_cases hp : p.text = ""
  · refine ⟨[], ?_, ?_⟩
    · rw [join_of_empty hp, parts_eq, h.pieces_eq, h.isAbsolute_eq]
      show [(name, if name = "." then some Component.here else inner name)] = _
      rw [if_neg h.2.1, h.inner_eq]
      rfl
    · rw [components_of_empty hp]
      rfl
  · obtain ⟨front, hfront, hparts⟩ := Path.exists_parts_join hp
    refine ⟨front, ?_, hfront⟩
    rw [hparts _ h.isAbsolute_eq, h.pieces_eq, List.map_singleton, part, h.inner_eq]

theorem components_below (h : ∀ name ∈ names, Plain name) :
    (dir.below names).components = dir.components ++ names.map .name := by
  unfold below
  induction names generalizing dir with
  | nil => exact (List.append_nil _).symm
  | cons name names ih =>
    obtain ⟨front, hparts, hfront⟩ := (h name List.mem_cons_self).exists_parts_join dir
    have hcomponents : (dir.join ⟨name⟩).components = dir.components ++ [.name name] := by
      rw [components, hparts, List.filterMap_append, hfront]
      rfl
    rw [List.foldl_cons, ih fun name hname => h name (List.mem_cons_of_mem _ hname), hcomponents,
      List.map_cons, List.append_assoc]
    rfl

theorem getLast?_parts_below (h : ∀ name ∈ names, Plain name) (hlast : names.getLast? = some name) :
    (dir.below names).parts.getLast? = some (name, some (.name name)) := by
  obtain ⟨front, rfl⟩ := List.getLast?_eq_some_iff.1 hlast
  obtain ⟨parts, hparts, -⟩ := (h name (by simp)).exists_parts_join (dir.below front)
  unfold below at hparts ⊢
  rw [List.foldl_append, List.foldl_cons, List.foldl_nil, hparts, List.getLast?_concat]

/-! ## Backslashes -/

theorem backslash_inner_iff :
    (∃ c, inner piece = some c ∧ '\\' ∈ c.label.toList) ↔ '\\' ∈ piece.toList := by
  constructor
  · rintro ⟨c, hc, hmem⟩
    rcases inner_eq_some hc with rfl | rfl
    · exact absurd hmem (by decide)
    · exact hmem
  · intro hmem
    have hne : ∀ s : String, '\\' ∉ s.toList → piece ≠ s := fun s hs heq => hs (heq ▸ hmem)
    have hname : inner piece = some (.name piece) := by
      unfold inner
      rw [if_neg (by simp [hne "" (by decide), hne "." (by decide)]), if_neg (hne ".." (by decide))]
    exact ⟨_, hname, hmem⟩

theorem backslash_parts_iff {x : String × Option Component} (h : x ∈ p.parts) :
    (∃ c, x.2 = some c ∧ '\\' ∈ c.label.toList) ↔ '\\' ∈ x.1.toList := by
  rw [parts_eq] at h
  cases hpieces : p.pieces with
  | nil => exact absurd hpieces p.pieces_ne_nil
  | cons first rest =>
    rw [hpieces, tagged, List.mem_cons] at h
    rcases h with rfl | h
    · -- The first piece is empty, a dot, or a piece as those behind it.
      split
      · rename_i habsolute
        have hfirst := head?_pieces_of_isAbsolute habsolute
        rw [hpieces] at hfirst
        obtain rfl := Option.some.inj hfirst
        exact iff_of_false (by simp [Component.label]) (by decide)
      · split
        · rename_i hdot
          subst hdot
          exact iff_of_false (by simp [Component.label]) (by decide)
        · exact backslash_inner_iff
    · obtain ⟨piece, -, rfl⟩ := List.mem_map.1 h
      exact backslash_inner_iff

theorem backslash_components_iff :
    (∃ c ∈ p.components, '\\' ∈ c.label.toList) ↔ '\\' ∈ p.text.toList := by
  rw [← mem_pieces_iff (by decide), ← map_fst_parts]
  unfold components
  simp only [List.mem_filterMap, List.mem_map, exists_exists_and_eq_and]
  constructor
  · rintro ⟨c, ⟨x, hx, hc⟩, hmem⟩
    exact ⟨x, hx, (backslash_parts_iff hx).1 ⟨c, hc, hmem⟩⟩
  · rintro ⟨x, hx, hmem⟩
    obtain ⟨c, hc, hmem⟩ := (backslash_parts_iff hx).2 hmem
    exact ⟨c, ⟨x, hx, hc⟩, hmem⟩

theorem backslash_pieces_iff :
    (∃ c ∈ p.pieces.filterMap inner, '\\' ∈ c.label.toList) ↔ '\\' ∈ p.text.toList := by
  rw [← mem_pieces_iff (by decide)]
  simp only [List.mem_filterMap]
  constructor
  · rintro ⟨c, ⟨piece, hpiece, hc⟩, hmem⟩
    exact ⟨piece, hpiece, backslash_inner_iff.1 ⟨c, hc, hmem⟩⟩
  · rintro ⟨piece, hpiece, hmem⟩
    obtain ⟨c, hc, hmem⟩ := backslash_inner_iff.2 hmem
    exact ⟨c, ⟨piece, hpiece, hc⟩, hmem⟩

end Path

end AssetDecl
