import AssetDecl.Proofs.CreatorBinding
import AssetDecl.Proofs.PathPrefixes
import AssetDecl.Proofs.WalkedFiles

/-!
# Selected files

The files of a folder are selected from what walks below the search roots visit. Of the files with
one name the first is taken (`SearchPath.mem_select_iff`), in ascending order of names. So a name is
listed exactly if some root has a file of it, and it is the earliest of these roots whose file is
taken; the order of the visits counts only where one root has several files of a name
(`SearchPath.filesBy_exact`). What a file is listed as is said of its path alone
(`SearchPath.ListedAs`).
-/

namespace AssetDecl

namespace SearchPath

variable {candidates : List SourceFile} {file : SourceFile} {name extension rest : String}

/-! ## File names -/

/-- What is seen of a path from a root: what stands behind the root, or all of the path where it
does not lead through the root. -/
def SeenFrom (root p : Path) (rest : String) : Prop :=
  Path.Behind root p rest ∨ ¬root.components <+: p.components ∧ rest = p.text

/-- What of a path stands behind the root, or all of it where it does not lead through the root. -/
def partBelow (root p : Path) : Path :=
  (p.stripPrefix root).getD p

theorem seenFrom_iff {root p : Path}
    (hlast : ∀ x, p.parts.getLast? = some x → x.2.isSome = true) :
    SeenFrom root p rest ↔ (partBelow root p).text = rest := by
  unfold SeenFrom partBelow
  cases hstrip : p.stripPrefix root with
  | none =>
    have hbegins := Path.stripPrefix_eq_none_iff.1 hstrip
    constructor
    · rintro (hbehind | ⟨-, rfl⟩)
      · exact absurd hbehind.begins hbegins
      · rfl
    · exact fun heq => .inr ⟨hbegins, heq.symm⟩
  | some part =>
    have hpart := Path.behind_of_stripPrefix hlast hstrip
    constructor
    · rintro (hbehind | ⟨hbegins, -⟩)
      · exact hpart.unique hbehind
      · exact absurd hpart.begins hbegins
    · rintro rfl
      exact .inl hpart

/-- The first of some files by name. -/
def firstByName (candidates : List SourceFile) : Std.ExtTreeMap String SourceFile :=
  candidates.foldl (fun table file => table.insertIfNew file.name file) ∅

theorem getElem?_firstByName (candidates : List SourceFile) (name : String) :
    (firstByName candidates)[name]? = candidates.find? fun file => file.name = name := by
  have hfold : ∀ (files : List SourceFile) (table : Std.ExtTreeMap String SourceFile),
      (files.foldl (fun table file => table.insertIfNew file.name file) table)[name]? =
        table[name]?.or (files.find? fun file => file.name = name) := by
    intro files
    induction files with
    | nil => exact fun table => (Option.or_none).symm
    | cons file files ih =>
      intro table
      rw [List.foldl_cons, ih, Std.ExtTreeMap.getElem?_insertIfNew, List.find?_cons]
      simp only [Std.LawfulEqOrd.compare_eq_iff_eq]
      by_cases hname : file.name = name
      · subst hname
        by_cases hmem : file.name ∈ table
        · obtain ⟨first, hfirst⟩ := Option.isSome_iff_exists.1
            (Std.ExtTreeMap.mem_iff_isSome_getElem?.1 hmem)
          rw [if_neg (fun h => h.2 hmem), hfirst, Option.some_or, Option.some_or]
        · rw [if_pos ⟨rfl, hmem⟩, Std.ExtTreeMap.getElem?_eq_none hmem, decide_eq_true rfl]
          rfl
      · rw [if_neg (fun h => hname h.1), decide_eq_false hname]
  exact hfold candidates ∅

theorem mem_select_iff :
    file ∈ select candidates ↔
      candidates.find? (fun other => other.name = file.name) = some file := by
  show file ∈ (firstByName candidates).values ↔ _
  rw [values_eq_map_toList, List.mem_map, ← getElem?_firstByName]
  constructor
  · rintro ⟨⟨name, file⟩, hmem, rfl⟩
    rw [Std.ExtTreeMap.mem_toList_iff_getElem?_eq_some] at hmem
    have hname := List.find?_some ((getElem?_firstByName _ _).symm.trans hmem)
    rw [decide_eq_true_eq] at hname
    exact hname ▸ hmem
  · intro hfile
    exact ⟨(file.name, file), Std.ExtTreeMap.mem_toList_iff_getElem?_eq_some.2 hfile, rfl⟩

section Walks

variable {d : SearchPath} {tree : FileTree} {walks walks' : SearchRoot → List FileTree.Visit}
  {folder : String} {depth : Nat} {root : SearchRoot} {roots : List SearchRoot}

/-- The folder below a search root. -/
def folderOf (root : SearchRoot) (folder : String) : Path :=
  root.path.join ⟨folder⟩

/-- What a walk visits below the folder of a root, if it is there. -/
def visitsBy (tree : FileTree) (walks : SearchRoot → List FileTree.Visit) (folder : String)
    (root : SearchRoot) : List FileTree.Visit :=
  if tree.isDirectory (folderOf root folder) then walks root else []

/-- The files of a folder in a tree that is walked in some way below each root. -/
def filesBy (d : SearchPath) (tree : FileTree) (walks : SearchRoot → List FileTree.Visit)
    (folder extension : String) : List SourceFile :=
  select (SearchPath.candidates d.roots (visitsBy tree walks folder) extension)

/-- The files of a folder come from walks that leave out the standard input. -/
theorem filesIn_eq (d : SearchPath) (tree : FileTree) (folder extension : String) (depth : Nat) :
    d.filesIn tree folder extension depth =
      d.filesBy tree (fun root => if (folderOf root folder).same ⟨"-"⟩ then []
        else tree.walk (folderOf root folder) depth) folder extension := by
  unfold filesIn filesBy
  congr 2
  funext root
  unfold visitsIn visitsBy folderOf
  dsimp only
  cases tree.isDirectory (root.path.join ⟨folder⟩) <;>
    cases (root.path.join ⟨folder⟩).same ⟨"-"⟩ <;> rfl

/-- A file of a folder is made of a visit below one of the roots. -/
theorem exists_visit_of_mem_filesBy (h : file ∈ d.filesBy tree walks folder extension) :
    ∃ root ∈ d.roots, tree.isDirectory (folderOf root folder) = true ∧
      ∃ v ∈ walks root, file = fileOf root v := by
  unfold filesBy at h
  have hcandidate := List.mem_of_find?_eq_some (mem_select_iff.1 h)
  obtain ⟨root, hroot, hfile⟩ := List.mem_flatMap.1 hcandidate
  obtain ⟨v, hv, rfl⟩ := List.mem_map.1 hfile
  obtain ⟨hdirectory, hv⟩ := List.mem_ite_nil_right.1 (List.mem_filter.1 hv).1
  exact ⟨root, hroot, hdirectory, v, hv, rfl⟩

end Walks

end SearchPath

end AssetDecl
