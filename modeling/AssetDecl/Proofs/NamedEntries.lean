import AssetDecl.Proofs.SelectedFiles

/-!
# Entries and the names they are listed under

A file is listed under the part of its path below the root, with every backslash turned into a
slash, and it is opened by joining that name to the root. Where the part has no backslash this leads
back to the file, for the paths have the same components (`FileTree.locate_eq_of_same`). Where it
has one the name is that of another entry.
-/

namespace AssetDecl

namespace FileTree

variable {t : FileTree} {p q dir : Path} {loc : Location} {names : List String} {depth links : Nat}
  {steps steps' : List Component} {follow : Location → List Component → Except FileError Location}

/-! ## Paths with the same components -/

/-- Staying in a place does nothing in front of another step, which asks for a directory itself. -/
theorem descend_here (hne : steps ≠ []) :
    t.descend follow loc (.here :: steps) = t.descend follow loc steps := by
  obtain ⟨c, rest, rfl⟩ := List.exists_cons_of_ne_nil hne
  conv_lhs => unfold descend
  cases hentry : t.entry? loc with
  | none =>
    unfold descend
    rw [hentry]
  | some entry =>
    cases entry with
    | directory => rfl
    | file data =>
      unfold descend
      rw [hentry]
    | link target =>
      unfold descend
      rw [hentry]

theorem descend_append_congr (hnil : steps = [] ↔ steps' = [])
    (hfollow : ∀ loc front, follow loc (front ++ steps) = follow loc (front ++ steps'))
    (hsteps : ∀ loc, t.descend follow loc steps = t.descend follow loc steps')
    (front : List Component) (loc : Location) :
    t.descend follow loc (front ++ steps) = t.descend follow loc (front ++ steps') := by
  induction front generalizing loc with
  | nil => exact hsteps loc
  | cons c front ih =>
    have hempty : front ++ steps = [] ↔ front ++ steps' = [] := by
      rw [List.append_eq_nil_iff, List.append_eq_nil_iff, hnil]
    have hlinked : ∀ loc target, follow loc (target ++ (front ++ steps)) =
        follow loc (target ++ (front ++ steps')) := fun loc target => by
      rw [← List.append_assoc, ← List.append_assoc, hfollow]
    rw [List.cons_append, List.cons_append]
    unfold descend
    simp only [ih, hempty, hlinked]

/-- Steps that lead to the same places from everywhere do so behind any other steps. -/
theorem locateFrom_append_congr (hnil : steps = [] ↔ steps' = [])
    (hsteps : ∀ links loc, t.locateFrom links loc steps = t.locateFrom links loc steps')
    (links : Nat) (loc : Location) (front : List Component) :
    t.locateFrom links loc (front ++ steps) = t.locateFrom links loc (front ++ steps') := by
  induction links generalizing loc front with
  | zero => exact descend_append_congr hnil (fun _ _ => rfl) (hsteps 0) front loc
  | succ links ih => exact descend_append_congr hnil ih (hsteps (links + 1)) front loc

theorem locateFrom_here (hne : steps ≠ []) :
    t.locateFrom links loc (.here :: steps) = t.locateFrom links loc steps := by
  cases links <;> exact descend_here hne

theorem filter_eq_nil_iff_of_last (hlast : steps.getLast? ≠ some .here) :
    steps = [] ↔ steps.filter (· ≠ .here) = [] := by
  refine ⟨fun h => by rw [h, List.filter_nil], fun hfilter => not_not.1 fun hne => hlast ?_⟩
  have hhere := List.filter_eq_nil_iff.1 hfilter _ (List.getLast_mem hne)
  rw [List.getLast?_eq_some_getLast hne]
  simpa using hhere

/-- Steps that do not end in staying lead to where the steps that move lead. -/
theorem locateFrom_filter (hlast : steps.getLast? ≠ some .here) (links : Nat) (loc : Location) :
    t.locateFrom links loc steps = t.locateFrom links loc (steps.filter (· ≠ .here)) := by
  induction steps generalizing links loc with
  | nil => rfl
  | cons c steps ih =>
    by_cases hne : steps = []
    · subst hne
      have hc : c ≠ .here := fun h => hlast (h ▸ rfl)
      rw [List.filter_cons_of_pos (by simpa using hc), List.filter_nil]
    have hrest : steps.getLast? ≠ some .here := by
      rw [List.getLast?_cons, List.getLast?_eq_some_getLast hne] at hlast
      rwa [List.getLast?_eq_some_getLast hne]
    by_cases hc : c = .here
    · rw [hc, locateFrom_here hne, List.filter_cons_of_neg (by simp)]
      exact ih hrest links loc
    · rw [List.filter_cons_of_pos (by simpa using hc)]
      exact locateFrom_append_congr (filter_eq_nil_iff_of_last hrest) (ih hrest) links loc [c]

theorem filter_steps (p : Path) :
    p.steps.filter (· ≠ .here) = p.components.filter (· ≠ .here) := by
  unfold Path.steps Path.components
  induction p.parts with
  | nil => rfl
  | cons part parts ih =>
    obtain ⟨piece, c⟩ := part
    cases c with
    | none => exact ih
    | some c =>
      show (c :: parts.map _).filter _ = (c :: parts.filterMap Prod.snd).filter _
      rw [List.filter_cons, List.filter_cons, ih]

/-- Two paths with the same components lead to the same place, if neither asks for a directory at
its end. -/
theorem locate_eq_of_same (hsame : p.same q = true) (hp : p.steps.getLast? ≠ some .here)
    (hq : q.steps.getLast? ≠ some .here) (hplength : p.text.utf8ByteSize < 4096)
    (hqlength : q.text.utf8ByteSize < 4096) : t.locate p = t.locate q := by
  have hcomponents : p.components = q.components := beq_iff_eq.1 hsame
  have hempty := Path.text_eq_empty_congr hcomponents
  have horigin : t.origin p = t.origin q := by
    have habsolute : p.isAbsolute = q.isAbsolute := by
      rw [Bool.eq_iff_iff, Path.isAbsolute_iff, hcomponents, Path.isAbsolute_iff]
    unfold origin
    rw [habsolute]
  have htarget : t.target p = t.target q := by
    unfold target FileTree.follow
    rw [if_neg (Nat.not_le.2 hplength), if_neg (Nat.not_le.2 hqlength), locateFrom_filter hp,
      locateFrom_filter hq, filter_steps, filter_steps, hcomponents, horigin]
    simp only [hempty]
  unfold locate
  rw [htarget]

end FileTree

namespace SearchPath

variable {d : SearchPath} {tree : FileTree} {walks : SearchRoot → List FileTree.Visit}
  {folder extension : String} {depth : Nat} {root p : Path} {names : List String} {name : String}

/-! ## Parts below a root -/

theorem nameBelow_eq (root p : Path) :
    nameBelow root p = String.ofList ((partBelow root p).text.toList.map fun c =>
      if c = '\\' then '/' else c) :=
  rfl

theorem nameBelow_of_notMem (h : '\\' ∉ (partBelow root p).text.toList) :
    nameBelow root p = (partBelow root p).text := by
  have hkept : (partBelow root p).text.toList.map (fun c => if c = '\\' then '/' else c) =
      (partBelow root p).text.toList :=
    (List.map_congr_left fun c hc => if_neg fun heq : c = '\\' => h (heq ▸ hc)).trans
      (List.map_id _)
  rw [nameBelow_eq, hkept, String.ofList_toList]

theorem backslash_notMem_nameBelow (root p : Path) : '\\' ∉ (nameBelow root p).toList := by
  rw [nameBelow_eq, String.toList_ofList, List.mem_map]
  rintro ⟨c, -, hc⟩
  split at hc
  · exact absurd hc (by decide)
  · contradiction

theorem isAbsolute_nameBelow (h : (partBelow root p).isAbsolute = true) :
    Path.isAbsolute ⟨nameBelow root p⟩ = true := by
  unfold Path.isAbsolute at h ⊢
  rw [nameBelow_eq, String.toList_ofList, List.head?_map, beq_iff_eq.1 h]
  rfl

/-- The path of an entry, which ends in a name and is absolute or leads through the root. -/
structure Reaches (root p : Path) (name : String) : Prop where
  ends : p.parts.getLast? = some (name, some (.name name))
  begins : p.isAbsolute = true ∨ root.components <+: p.components

theorem reaches_below {root : SearchRoot} (hnames : ∀ name ∈ names, Path.Plain name)
    (hlast : names.getLast? = some name) :
    Reaches root.path ((folderOf root folder).below names) name := by
  refine ⟨Path.getLast?_parts_below hnames hlast, ?_⟩
  rw [Path.isAbsolute_iff, Path.components_below hnames]
  unfold folderOf
  by_cases hfolder : Path.isAbsolute ⟨folder⟩ = true
  · refine .inl ?_
    rw [Path.join_of_isAbsolute hfolder, List.head?_append, Path.isAbsolute_iff.1 hfolder]
    rfl
  · refine .inr ?_
    rw [Bool.not_eq_true] at hfolder
    by_cases hroot : root.path.text = ""
    · rw [Path.components_of_empty hroot]
      exact List.nil_prefix
    · rw [Path.components_join hroot hfolder, List.append_assoc]
      exact List.prefix_append _ _

theorem Reaches.isSome_of_last (h : Reaches root p name) :
    ∀ x, p.parts.getLast? = some x → x.2.isSome = true := by
  intro x hx
  obtain rfl := Option.some.inj (h.ends.symm.trans hx)
  rfl

/-- The part of an entry's path below a root is the whole path, which needs no root, or it stands
behind the components of the root. -/
theorem partBelow_cases (h : Reaches root p name) :
    (partBelow root p = p ∧ ∀ q : Path, (p.isAbsolute = true → q.isAbsolute = true) →
      root.join q = q) ∨
    root.text ≠ "" ∧ Path.Behind root p (partBelow root p).text := by
  by_cases hroot : root.text = ""
  · have hwhole : Path.Behind root p p.text :=
      ⟨"", String.empty_append.symm, by rw [Path.components_of_empty hroot]; rfl, .inl rfl⟩
    refine .inl ⟨?_, fun q _ => Path.join_of_empty hroot⟩
    exact congrArg Path.mk ((seenFrom_iff h.isSome_of_last).1 (.inl hwhole))
  · rcases (seenFrom_iff h.isSome_of_last).2 rfl with hbehind | ⟨hbegins, hwhole⟩
    · exact .inr ⟨hroot, hbehind⟩
    · exact .inl ⟨congrArg Path.mk hwhole,
        fun q hq => Path.join_of_isAbsolute (hq (h.begins.resolve_right hbegins))⟩

/-- Joined to the root, the part below it has the components of the path again. -/
theorem components_join_partBelow (h : Reaches root p name) :
    (root.join (partBelow root p)).components = p.components := by
  rcases partBelow_cases h with ⟨hpart, hjoin⟩ | ⟨hroot, hbehind⟩
  · rw [hjoin _ (fun habsolute => by rwa [hpart]), hpart]
  · exact (hbehind.components_join hroot).2

/-- The name that is listed leads back to the entry exactly if there is no backslash to turn. -/
theorem same_join_nameBelow_iff (h : Reaches root p name) :
    (root.join ⟨nameBelow root p⟩).same p = true ↔ '\\' ∉ (partBelow root p).text.toList := by
  unfold Path.same
  rw [beq_iff_eq]
  refine ⟨fun hsame hmem => ?_, fun hnone => ?_⟩
  · have hturned : ¬∃ c ∈ Path.components ⟨nameBelow root p⟩, '\\' ∈ c.label.toList :=
      mt Path.backslash_components_iff.1 (backslash_notMem_nameBelow root p)
    rcases partBelow_cases h with ⟨hpart, hjoin⟩ | ⟨hroot, hbehind⟩
    · rw [hjoin _ fun habsolute => isAbsolute_nameBelow (hpart.symm ▸ habsolute)] at hsame
      rw [hsame] at hturned
      exact hturned (Path.backslash_components_iff.2 (hpart ▸ hmem))
    · obtain ⟨hrelative, hcomponents⟩ := hbehind.components_join hroot
      rw [Path.components_join hroot hrelative] at hcomponents
      obtain ⟨c, hc, hslash⟩ := Path.backslash_pieces_iff.2 hmem
      cases habsolute : Path.isAbsolute ⟨nameBelow root p⟩ with
      | true =>
        rw [Path.join_of_isAbsolute habsolute] at hsame
        rw [hsame, ← hcomponents] at hturned
        exact hturned ⟨c, List.mem_append_right _ hc, hslash⟩
      | false =>
        rw [Path.components_join hroot habsolute, ← hcomponents] at hsame
        rw [← List.append_cancel_left hsame] at hc
        exact backslash_notMem_nameBelow root p (Path.backslash_pieces_iff.1 ⟨c, hc, hslash⟩)
  · rw [nameBelow_of_notMem hnone]
    exact components_join_partBelow h

theorem getLast?_steps {x : String × Option Component} (h : p.parts.getLast? = some x) :
    p.steps.getLast? = some (x.2.getD .here) := by
  unfold Path.steps
  rw [List.getLast?_map, h]
  rfl

/-- The path that is opened ends in the name of the entry, unless the part below the root is
empty. -/
theorem getLast?_parts_join_partBelow (h : Reaches root p name)
    (hne : (partBelow root p).text ≠ "") :
    (root.join (partBelow root p)).parts.getLast? = some (name, some (.name name)) := by
  rcases partBelow_cases h with ⟨hpart, hjoin⟩ | ⟨hroot, hbehind⟩
  · rw [hjoin _ (fun habsolute => by rwa [hpart]), hpart, h.ends]
  · exact (hbehind.getLast?_parts_join hroot hne).trans h.ends

/-- Two entries below one directory that are listed under one name are the same, if no backslash was
turned in either. -/
theorem below_eq_of_nameBelow_eq {dir : Path} {names' : List String} {name' : String}
    (hnames : ∀ name ∈ names, Path.Plain name) (hnames' : ∀ name ∈ names', Path.Plain name)
    (h : Reaches root (dir.below names) name) (h' : Reaches root (dir.below names') name')
    (hnone : '\\' ∉ (partBelow root (dir.below names)).text.toList)
    (hnone' : '\\' ∉ (partBelow root (dir.below names')).text.toList)
    (heq : nameBelow root (dir.below names) = nameBelow root (dir.below names')) :
    dir.below names = dir.below names' := by
  rw [nameBelow_of_notMem hnone, nameBelow_of_notMem hnone'] at heq
  have hpart : partBelow root (dir.below names) = partBelow root (dir.below names') :=
    congrArg Path.mk heq
  have hcomponents := components_join_partBelow h
  rw [hpart, components_join_partBelow h', Path.components_below hnames,
    Path.components_below hnames'] at hcomponents
  rw [List.map_injective_iff.2 (fun _ _ => Component.name.inj)
    (List.append_cancel_left hcomponents)]

/-! ## Files that are listed and opened -/

/-- The files of a folder, in a tree that is walked below each root in whatever order. Each of them
is made of an entry that the walk visits. It has the path of that entry exactly if no backslash
stands in what is seen of the path from the root. Then opening it reads what the entry holds, as
long as anything is seen and the paths are not too long. Entries that are listed under one name are
the same, unless a backslash is seen in one of them. -/
theorem filesBy_named (d : SearchPath) (tree : FileTree) (walks : SearchRoot → List FileTree.Visit)
    (folder extension : String) (depth : Nat) (hplain : tree.HasPlainNames)
    (hwalk : ∀ root ∈ d.roots, tree.isDirectory (folderOf root folder) = true →
      tree.Walked (folderOf root folder) depth (walks root)) :
    (∀ file ∈ d.filesBy tree walks folder extension, ∃ root ∈ d.roots, ∃ v ∈ walks root, ∃ rest,
      file = fileOf root v ∧ SeenFrom root.path v.path rest ∧
      (file.path.same v.path = true ↔ '\\' ∉ rest.toList) ∧
      ('\\' ∉ rest.toList → rest ≠ "" → file.path.text.utf8ByteSize < 4096 →
        v.path.text.utf8ByteSize < 4096 →
        tree.locate file.path = tree.locate v.path ∧ read tree file = tree.readFile v.path)) ∧
    ∀ root ∈ d.roots, tree.isDirectory (folderOf root folder) = true →
      ∀ v ∈ walks root, ∀ w ∈ walks root, (fileOf root v).name = (fileOf root w).name →
        v = w ∨ ∃ rest, (SeenFrom root.path v.path rest ∨ SeenFrom root.path w.path rest) ∧
          '\\' ∈ rest.toList := by
  have hvisit : ∀ root ∈ d.roots, tree.isDirectory (folderOf root folder) = true →
      ∀ v ∈ walks root, ∃ names, (folderOf root folder).below names = v.path ∧
        (∀ name ∈ names, Path.Plain name) ∧ Reaches root.path v.path v.name := by
    intro root hroot hdirectory v hv
    obtain ⟨names, hbelow, hpath, hlast⟩ :=
      ((hwalk root hroot hdirectory).exact v.path v.name).1 ⟨v.data, hv⟩
    have hnames := hbelow.plain hplain
    exact ⟨names, hpath, hnames, hpath ▸ reaches_below hnames hlast⟩
  constructor
  · intro file hfile
    obtain ⟨root, hroot, hdirectory, v, hv, rfl⟩ := exists_visit_of_mem_filesBy hfile
    obtain ⟨-, -, -, hreaches⟩ := hvisit root hroot hdirectory v hv
    have hsame := same_join_nameBelow_iff hreaches
    refine ⟨root, hroot, v, hv, _, rfl, (seenFrom_iff hreaches.isSome_of_last).2 rfl, hsame,
      fun hnone hrest hlength hlength' => ?_⟩
    have hends : (fileOf root v).path.parts.getLast? = some (v.name, some (.name v.name)) := by
      show (root.path.join ⟨nameBelow root.path v.path⟩).parts.getLast? = _
      rw [nameBelow_of_notMem hnone]
      exact getLast?_parts_join_partBelow hreaches hrest
    have hlocate : tree.locate (fileOf root v).path = tree.locate v.path :=
      FileTree.locate_eq_of_same (hsame.2 hnone) (by rw [getLast?_steps hends]; simp)
        (by rw [getLast?_steps hreaches.ends]; simp) hlength hlength'
    refine ⟨hlocate, ?_⟩
    unfold read FileTree.readFile
    rw [hlocate]
  · intro root hroot hdirectory v hv w hw heq
    obtain ⟨names, hpath, hnames, hreaches⟩ := hvisit root hroot hdirectory v hv
    obtain ⟨names', hpath', hnames', hreaches'⟩ := hvisit root hroot hdirectory w hw
    by_cases hnone : '\\' ∈ (partBelow root.path v.path).text.toList
    · exact .inr ⟨_, .inl ((seenFrom_iff hreaches.isSome_of_last).2 rfl), hnone⟩
    by_cases hnone' : '\\' ∈ (partBelow root.path w.path).text.toList
    · exact .inr ⟨_, .inr ((seenFrom_iff hreaches'.isSome_of_last).2 rfl), hnone'⟩
    have hname : nameBelow root.path v.path = nameBelow root.path w.path := heq
    rw [← hpath] at hnone hname hreaches
    rw [← hpath'] at hnone' hname hreaches'
    have hsame := below_eq_of_nameBelow_eq hnames hnames' hreaches hreaches' hnone hnone' hname
    rw [hpath, hpath'] at hsame
    exact .inl (List.inj_on_of_nodup_map (hwalk root hroot hdirectory).once hv hw hsame)

/-- A folder that is named with a dot. One of its files has a backslash in its name. -/
theorem filesBy_named_moor :
    let moor := (({} : FileTree).write ⟨"/p/m/moss.mtr"⟩ ⟨[1], 1⟩).write ⟨"/p/m/a\\b.mtr"⟩ ⟨[2], 2⟩
    let root : SearchRoot := .ofPath ⟨"/p/"⟩
    let d : SearchPath := ⟨[root]⟩
    let walks root := if (folderOf root "./m/").same ⟨"-"⟩ then []
      else moor.walk (folderOf root "./m/") 2
    moor.HasPlainNames ∧ moor.Walked (folderOf root "./m/") 2 (walks root) ∧
    (d.filesIn moor "./m/" ".mtr" 2).map (fun file => (file.name, file.path.text)) =
      [("m/a/b.mtr", "/p/m/a/b.mtr"), ("m/moss.mtr", "/p/m/moss.mtr")] ∧
    ∀ file ∈ d.filesIn moor "./m/" ".mtr" 2,
      (file.name = "m/moss.mtr" → file.path.same ⟨"/p/./m/moss.mtr"⟩ = true ∧
        read moor file = moor.readFile ⟨"/p/./m/moss.mtr"⟩) ∧
      (file.name = "m/a/b.mtr" → file.path.same ⟨"/p/./m/a\\b.mtr"⟩ = false) := by
  intro moor root d walks
  have hplain : moor.HasPlainNames := by
    unfold FileTree.HasPlainNames
    decide +kernel
  have hlocate : moor.locate (folderOf root "./m/") = .ok ["p", "m"] := by decide +kernel
  have hwalk : moor.Walked (folderOf root "./m/") 2 (walks root) := by
    refine FileTree.walked_of_perm hlocate ?_ ?_ ?_
    · decide +kernel
    · decide +kernel
    · decide +kernel
  have hvisits : walks root = [⟨⟨"/p/./m/a\\b.mtr"⟩, "a\\b.mtr", ⟨[2], 2⟩⟩,
      ⟨⟨"/p/./m/moss.mtr"⟩, "moss.mtr", ⟨[1], 1⟩⟩] := by decide +kernel
  have hshown : (d.filesIn moor "./m/" ".mtr" 2).map (fun file => (file.name, file.path.text)) =
      [("m/a/b.mtr", "/p/m/a/b.mtr"), ("m/moss.mtr", "/p/m/moss.mtr")] := by decide +kernel
  have hnamed := (filesBy_named d moor walks "./m/" ".mtr" 2 hplain
    (by simpa [d] using fun _ => hwalk)).1
  refine ⟨hplain, hwalk, hshown, ?_⟩
  rw [filesIn_eq]
  intro file hfile
  obtain ⟨other, hother, v, hv, rest, rfl, hseen, hsame, hread⟩ := hnamed file hfile
  obtain rfl := List.mem_singleton.1 hother
  obtain rfl := (seenFrom_iff (hwalk.isSome_of_last hplain hv)).1 hseen
  rw [hvisits] at hv
  simp only [List.mem_cons, List.not_mem_nil, or_false] at hv
  rcases hv with rfl | rfl
  · refine ⟨fun hname => absurd hname (by decide +kernel), fun _ => ?_⟩
    rw [← Bool.not_eq_true, hsame]
    decide +kernel
  · refine ⟨fun _ => ⟨hsame.2 (by decide +kernel), (hread ?_ ?_ ?_ ?_).2⟩,
      fun hname => absurd hname (by decide +kernel)⟩
    all_goals decide +kernel

/-- A backslash in the name of a file is taken for a slash. So the file is lost where there is one
of the other name, and alone it cannot be opened. -/
theorem backslash_names_another :
    let tree := (({} : FileTree).write ⟨"/p/m/a\\b.mtr"⟩ ⟨[1], 1⟩).write ⟨"/p/m/a/b.mtr"⟩ ⟨[2], 2⟩
    let alone := ({} : FileTree).write ⟨"/p/m/a\\b.mtr"⟩ ⟨[1], 1⟩
    let root : SearchRoot := .ofPath ⟨"/p"⟩
    let d : SearchPath := ⟨[root]⟩
    (tree.HasPlainNames ∧
      tree.Walked (folderOf root "m/") 99 (tree.walk (folderOf root "m/") 99) ∧
      (tree.walk (folderOf root "m/") 99).map (fun v => v.path.text) =
        ["/p/m/a/b.mtr", "/p/m/a\\b.mtr"] ∧
      (d.filesIn tree "m/" ".mtr" 99).map (fun file => file.path.text) = ["/p/m/a/b.mtr"]) ∧
    alone.HasPlainNames ∧
      alone.Walked (folderOf root "m/") 99 (alone.walk (folderOf root "m/") 99) ∧
      (alone.readFile ⟨"/p/m/a\\b.mtr"⟩).toOption = some ⟨[1], 1⟩ ∧
      (d.filesIn alone "m/" ".mtr" 99).map
        (fun file => (file.path.text, (read alone file).toOption)) = [("/p/m/a/b.mtr", none)] := by
  intro tree alone root d
  have htree : tree.locate (folderOf root "m/") = .ok ["p", "m"] := by decide +kernel
  have halone : alone.locate (folderOf root "m/") = .ok ["p", "m"] := by decide +kernel
  unfold FileTree.HasPlainNames
  refine ⟨⟨?_, FileTree.walked_of_perm htree ?_ ?_ ?_, ?_, ?_⟩,
    ?_, FileTree.walked_of_perm halone ?_ ?_ ?_, ?_, ?_⟩
  all_goals decide +kernel

end SearchPath

end AssetDecl
