import AssetDecl.Proofs.PathComponents
import AssetDecl.SearchPath

/-!
# Files below a directory

Which names lead from a directory down to a file is a matter of the tree alone
(`FileTree.Leads`). A walk is relied on for visiting each of these files once, in whatever order
(`FileTree.Walked`). The names can be computed (`FileTree.mem_namesBelow_iff`), which is how a walk
of a given tree is checked.
-/

namespace AssetDecl

namespace FileTree

variable {t : FileTree} {p dir : Path} {loc place : Location} {name : String} {names : List String}
  {depth : Nat}

/-- What an entry of the directory `p` at `loc` is when links are followed, and where that is. -/
def child? (t : FileTree) (p : Path) (loc : Location) (name : String) :
    Option (TreeEntry × Location) :=
  match t.entry? (loc ++ [name]) with
  | some (.link _) =>
    (t.locate (p.join ⟨name⟩)).toOption.bind fun place => (t.entry? place).map (·, place)
  | entry => entry.map (·, loc ++ [name])

/-- Names that lead from the directory `p` at `loc` down to a file. -/
inductive Leads (t : FileTree) : Path → Location → List String → Prop where
  | file {p : Path} {loc place : Location} {name : String} {data : FileData}
    (h : t.child? p loc name = some (.file data, place)) : Leads t p loc [name]
  | inside {p : Path} {loc place : Location} {name : String} {names : List String}
    (h : t.child? p loc name = some (.directory, place))
    (hnames : Leads t (p.join ⟨name⟩) place names) : Leads t p loc (name :: names)

/-- The names lead from the directory `dir` to a file, at most `depth` levels down. -/
def FileBelow (t : FileTree) (dir : Path) (depth : Nat) (names : List String) : Prop :=
  names.length ≤ depth ∧
    ∃ loc, t.locate dir = .ok loc ∧ t.entry? loc = some .directory ∧ t.Leads dir loc names

/-- These are visits of all files below a directory, at most `depth` levels down, each once. -/
structure Walked (t : FileTree) (dir : Path) (depth : Nat) (visits : List Visit) : Prop where
  once : (visits.map Visit.path).Nodup
  exact : ∀ path name, (∃ data, Visit.mk path name data ∈ visits) ↔
    ∃ names, t.FileBelow dir depth names ∧ dir.below names = path ∧ names.getLast? = some name

/-! ## Computing the names -/

/-- The names that lead to a file, at most `depth` levels down. -/
def namesBelow (t : FileTree) : Nat → Path → Location → List (List String)
  | 0, _, _ => []
  | depth + 1, p, loc =>
    (t.children loc).flatMap fun name =>
      match t.child? p loc name with
      | some (.file _, _) => [[name]]
      | some (.directory, place) => (t.namesBelow depth (p.join ⟨name⟩) place).map (name :: ·)
      | _ => []

theorem isSome_entry?_of_child? (h : (t.child? p loc name).isSome) :
    (t.entry? (loc ++ [name])).isSome := by
  unfold child? at h
  cases hentry : t.entry? (loc ++ [name]) with
  | none => simp [hentry] at h
  | some entry => rfl

theorem mem_children_of_child? (h : (t.child? p loc name).isSome) : name ∈ t.children loc := by
  have hentry := isSome_entry?_of_child? h
  unfold entry? at hentry
  rw [if_neg (by simp)] at hentry
  unfold children
  rw [List.mem_filterMap]
  refine ⟨loc ++ [name], ?_, ?_⟩
  · rw [Std.ExtTreeMap.mem_keys, Std.ExtTreeMap.mem_iff_isSome_getElem?]
    exact hentry
  · rw [if_pos List.dropLast_concat, List.getLast?_concat]

theorem Leads.ne_nil (h : t.Leads p loc names) : names ≠ [] := by
  cases h <;> simp

theorem mem_namesBelow_iff :
    names ∈ t.namesBelow depth p loc ↔ names.length ≤ depth ∧ t.Leads p loc names := by
  induction depth generalizing p loc names with
  | zero =>
    refine ⟨fun h => absurd h List.not_mem_nil, fun ⟨hlength, hleads⟩ => ?_⟩
    exact absurd (List.length_eq_zero_iff.1 (Nat.le_zero.1 hlength)) hleads.ne_nil
  | succ depth ih =>
    unfold namesBelow
    rw [List.mem_flatMap]
    constructor
    · rintro ⟨name, -, hnames⟩
      split at hnames
      · rename_i hchild
        obtain rfl := List.mem_singleton.1 hnames
        exact ⟨Nat.le_add_left 1 depth, .file hchild⟩
      · rename_i hchild
        obtain ⟨rest, hrest, rfl⟩ := List.mem_map.1 hnames
        obtain ⟨hlength, hleads⟩ := ih.1 hrest
        exact ⟨Nat.succ_le_succ hlength, .inside hchild hleads⟩
      · exact absurd hnames List.not_mem_nil
    · rintro ⟨hlength, hleads⟩
      cases hleads with
      | file hchild =>
        exact ⟨_, mem_children_of_child? (by rw [hchild]; rfl), by simp [hchild]⟩
      | inside hchild hrest =>
        refine ⟨_, mem_children_of_child? (by rw [hchild]; rfl), ?_⟩
        simp only [hchild, List.mem_map]
        exact ⟨_, ih.2 ⟨Nat.le_of_succ_le_succ hlength, hrest⟩, rfl⟩

/-- A walk is checked by comparing its visits with the names that lead to files. -/
theorem walked_of_perm {visits : List Visit} (hlocate : t.locate dir = .ok loc)
    (hdirectory : t.entry? loc = some .directory) (honce : (visits.map Visit.path).Nodup)
    (hperm : (visits.map fun v => (v.path, some v.name)).Perm
      ((t.namesBelow depth dir loc).map fun names => (dir.below names, names.getLast?))) :
    t.Walked dir depth visits := by
  refine ⟨honce, fun path name => ?_⟩
  have hvisited : (∃ data, Visit.mk path name data ∈ visits) ↔
      (path, some name) ∈ visits.map fun v => (v.path, some v.name) := by
    rw [List.mem_map]
    constructor
    · rintro ⟨data, hmem⟩
      exact ⟨_, hmem, rfl⟩
    · rintro ⟨v, hmem, heq⟩
      simp only [Prod.mk.injEq, Option.some.injEq] at heq
      obtain ⟨rfl, rfl⟩ := heq
      exact ⟨v.data, hmem⟩
  rw [hvisited, hperm.mem_iff, List.mem_map]
  refine exists_congr fun names => ?_
  rw [mem_namesBelow_iff, Prod.mk.injEq, FileBelow]
  refine and_congr_left fun _ => and_congr_right fun _ => ?_
  constructor
  · exact fun hleads => ⟨loc, hlocate, hdirectory, hleads⟩
  · rintro ⟨loc', hlocate', -, hleads⟩
    obtain rfl := Except.ok.inj (hlocate.symm.trans hlocate')
    exact hleads

/-! ## Plain names -/

/-- Every entry has a name of its own in its directory. -/
def HasPlainNames (t : FileTree) : Prop :=
  ∀ loc ∈ t.entries.keys, ∀ name ∈ loc, Path.Plain name

theorem plain_of_child? (ht : t.HasPlainNames) {name : String}
    (h : (t.child? p loc name).isSome) : Path.Plain name := by
  have hentry := isSome_entry?_of_child? h
  unfold entry? at hentry
  rw [if_neg (by simp)] at hentry
  exact ht _ (Std.ExtTreeMap.mem_keys.2 (Std.ExtTreeMap.mem_iff_isSome_getElem?.2 hentry)) name
    (by simp)

theorem Leads.plain (ht : t.HasPlainNames) (h : t.Leads p loc names) :
    ∀ name ∈ names, Path.Plain name := by
  induction h with
  | file hchild => simpa using plain_of_child? ht (Option.isSome_of_eq_some hchild)
  | inside hchild _ ih =>
    rw [List.forall_mem_cons]
    exact ⟨plain_of_child? ht (Option.isSome_of_eq_some hchild), ih⟩

theorem FileBelow.plain (ht : t.HasPlainNames) (h : t.FileBelow dir depth names) :
    ∀ name ∈ names, Path.Plain name := by
  obtain ⟨-, loc, -, -, hleads⟩ := h
  exact Leads.plain ht hleads

/-- The path of a visit ends in the name of the file. -/
theorem Walked.ends {visits : List Visit} {v : Visit} (h : t.Walked dir depth visits)
    (ht : t.HasPlainNames) (hv : v ∈ visits) :
    v.path.parts.getLast? = some (v.name, some (.name v.name)) := by
  obtain ⟨names, hbelow, hpath, hlast⟩ := (h.exact v.path v.name).1 ⟨v.data, hv⟩
  rw [← hpath]
  exact Path.getLast?_parts_below (hbelow.plain ht) hlast

theorem Walked.isSome_of_last {visits : List Visit} {v : Visit} (h : t.Walked dir depth visits)
    (ht : t.HasPlainNames) (hv : v ∈ visits) :
    ∀ x, v.path.parts.getLast? = some x → x.2.isSome = true := by
  intro x hx
  obtain rfl := Option.some.inj ((h.ends ht hv).symm.trans hx)
  rfl

end FileTree

end AssetDecl
