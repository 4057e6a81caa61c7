import AssetDecl.Proofs.InstalledAspects

/-!
# Differences between visits

A set of files may hold several of one name, and the greatest of them stands for it
(`FileDiff.Stands`). The difference of two sets tells which names only one of them has and for which
names they have files of another root or fingerprint. It is turned around with the sets, and there
is none exactly if both show the same under every name (`FileDiff.between_exact`).
-/

namespace AssetDecl

/-- In an ascending list, the last element that is chosen is the greatest one. -/
theorem getLast?_filter_eq_some_iff {α : Type} [Ord α] [Std.TransOrd α] {p : α → Bool}
    {as : List α} (has : as.Pairwise fun a b => compare a b = .lt) {a : α} :
    (as.filter p).getLast? = some a ↔
      a ∈ as ∧ p a = true ∧ ∀ b ∈ as, p b = true → (compare b a).isLE := by
  have hlast : ∀ {c}, (as.filter p).getLast? = some c →
      c ∈ as.filter p ∧ ∀ b ∈ as.filter p, b = c ∨ compare b c = .lt := by
    intro c hc
    obtain ⟨front, hfront⟩ := List.getLast?_eq_some_iff.1 hc
    have hsorted := has.filter p
    rw [hfront] at hsorted ⊢
    refine ⟨by simp, fun b hb => ?_⟩
    rcases List.mem_append.1 hb with hb | hb
    · exact .inr ((List.pairwise_append.1 hsorted).2.2 b hb c List.mem_cons_self)
    · exact .inl (List.mem_singleton.1 hb)
  constructor
  · intro ha
    obtain ⟨hmem, hbelow⟩ := hlast ha
    obtain ⟨hmem, hpa⟩ := List.mem_filter.1 hmem
    refine ⟨hmem, hpa, fun b hb hpb => ?_⟩
    rcases hbelow b (List.mem_filter.2 ⟨hb, hpb⟩) with rfl | hlt
    · exact Ordering.isLE_of_eq_eq Std.ReflCmp.compare_self
    · exact Ordering.isLE_of_eq_lt hlt
  · rintro ⟨ha, hpa, hgreatest⟩
    have ha := List.mem_filter.2 ⟨ha, hpa⟩
    obtain ⟨c, hc⟩ := Option.isSome_iff_exists.1
      (List.getLast?_isSome.2 (List.ne_nil_of_mem ha))
    obtain ⟨hmem, hbelow⟩ := hlast hc
    obtain ⟨hmem, hpc⟩ := List.mem_filter.1 hmem
    rcases hbelow a ha with rfl | hlt
    · exact hc
    · have hle := hgreatest c hmem hpc
      rw [Std.OrientedCmp.gt_of_lt hlt] at hle
      exact absurd hle Bool.false_ne_true

namespace FileDiff

variable {files previous current : FileSet} {file old : SourceFile} {name : String}

/-! ## Files by name -/

def HasName (files : FileSet) (name : String) : Prop :=
  ∃ file ∈ files.toList, file.name = name

/-- The file is the greatest one of its name. -/
structure Stands (files : FileSet) (name : String) (file : SourceFile) : Prop where
  mem : file ∈ files.toList
  name_eq : file.name = name
  greatest : ∀ other ∈ files.toList, other.name = name → (compare other file).isLE

/-- What is compared of a file: where it is, and what it was like. -/
def shown (file : SourceFile) : List Component × Fingerprint :=
  (file.root.components, file.fingerprint)

/-- What the file that stands for a name shows. -/
def Shows (files : FileSet) (name : String) (place : List Component × Fingerprint) : Prop :=
  ∃ file, Stands files name file ∧ shown file = place

theorem getElem?_byName (files : FileSet) (name : String) :
    (byName files)[name]? = (files.toList.filter fun file => file.name = name).getLast? := by
  unfold byName
  rw [Std.ExtTreeSet.foldl_eq_foldl_toList]
  have hlast : True ∧ (files.toList.foldl (fun table file => table.insert file.name file)
      (∅ : Std.ExtTreeMap String SourceFile))[name]? =
      ((files.toList.filter fun file => file.name = name).getLast?.map id).or
        (∅ : Std.ExtTreeMap String SourceFile)[name]? :=
    foldl_last (fun _ => True) (·[name]?) trivial fun table _ file _ => by
      refine ⟨trivial, ?_⟩
      simp only [Std.ExtTreeMap.getElem?_insert, Std.LawfulEqOrd.compare_eq_iff_eq,
        decide_eq_true_eq, id]
  rw [hlast.2, Option.map_id, Std.ExtTreeMap.getElem?_empty, Option.or_none]
  rfl

theorem byName_eq_some_iff : (byName files)[name]? = some file ↔ Stands files name file := by
  rw [getElem?_byName, getLast?_filter_eq_some_iff Std.ExtTreeSet.ordered_toList]
  simp only [decide_eq_true_eq]
  exact ⟨fun h => ⟨h.1, h.2.1, h.2.2⟩, fun h => ⟨h.mem, h.name_eq, h.greatest⟩⟩

theorem mem_byName_iff : name ∈ byName files ↔ HasName files name := by
  rw [Std.ExtTreeMap.mem_iff_isSome_getElem?, getElem?_byName, List.getLast?_isSome, ne_eq,
    List.filter_eq_nil_iff]
  simp [HasName]

theorem differs_iff (hname : file.name = old.name) :
    differs file old = true ↔ shown file ≠ shown old := by
  unfold differs SourceFile.hasOtherContents Path.same shown
  rw [ne_eq, Prod.mk.injEq, hname]
  by_cases hroot : file.root.components = old.root.components <;> simp [hroot]

/-! ## Names that differ -/

theorem mem_appeared_iff :
    name ∈ (between previous current).appeared ↔
      HasName current name ∧ ¬HasName previous name := by
  show name ∈ (byName current).keys.filter _ ↔ _
  rw [List.mem_filter, Std.ExtTreeMap.mem_keys, mem_byName_iff, ← @mem_byName_iff previous,
    Std.ExtTreeMap.mem_iff_contains, Bool.not_eq_true', Bool.not_eq_true]

theorem mem_vanished_iff :
    name ∈ (between previous current).vanished ↔
      HasName previous name ∧ ¬HasName current name :=
  mem_appeared_iff

theorem altered_eq (previous current : FileSet) :
    (between previous current).altered = (byName current).toList.filterMap fun entry =>
      (byName previous)[entry.1]?.bind fun old =>
        if differs entry.2 old then some entry.1 else none := by
  show (byName current).toList.filterMap _ = _
  congr 1
  funext ⟨name, file⟩
  dsimp only
  cases (byName previous)[name]? <;> rfl

theorem mem_altered_iff :
    name ∈ (between previous current).altered ↔
      ∃ old new, Stands previous name old ∧ Stands current name new ∧ shown new ≠ shown old := by
  simp only [altered_eq, List.mem_filterMap, Prod.exists,
    Std.ExtTreeMap.mem_toList_iff_getElem?_eq_some, Option.bind_eq_some_iff,
    Option.ite_none_right_eq_some, Option.some.injEq]
  constructor
  · rintro ⟨name, new, hnew, old, hold, hdiffers, rfl⟩
    rw [byName_eq_some_iff] at hnew hold
    exact ⟨old, new, hold, hnew, (differs_iff (hnew.name_eq.trans hold.name_eq.symm)).1 hdiffers⟩
  · rintro ⟨old, new, hold, hnew, hshown⟩
    exact ⟨name, new, byName_eq_some_iff.2 hnew, old, byName_eq_some_iff.2 hold,
      (differs_iff (hnew.name_eq.trans hold.name_eq.symm)).2 hshown, rfl⟩

/-! ## Ascending names -/

theorem keys_ascending (table : Std.ExtTreeMap String SourceFile) :
    table.keys.Pairwise (· < ·) :=
  (Std.ExtTreeMap.ordered_keys (t := table)).imp compareOfLessAndEq_eq_lt.1

theorem appeared_ascending (previous current : FileSet) :
    (between previous current).appeared.Pairwise (· < ·) :=
  (keys_ascending (byName current)).filter _

theorem vanished_ascending (previous current : FileSet) :
    (between previous current).vanished.Pairwise (· < ·) :=
  appeared_ascending current previous

theorem altered_ascending (previous current : FileSet) :
    (between previous current).altered.Pairwise (· < ·) := by
  have hordered := Std.ExtTreeMap.ordered_keys_toList (t := byName current)
  rw [altered_eq, List.pairwise_filterMap]
  refine hordered.imp fun hlt name hname name' hname' => ?_
  simp only [Option.bind_eq_some_iff, Option.ite_none_right_eq_some, Option.some.injEq]
    at hname hname'
  obtain ⟨_, -, -, rfl⟩ := hname
  obtain ⟨_, -, -, rfl⟩ := hname'
  exact compareOfLessAndEq_eq_lt.1 hlt

/-! ## The whole difference -/

theorem altered_comm (previous current : FileSet) :
    (between current previous).altered = (between previous current).altered := by
  refine (altered_ascending current previous).eq_of_mem_iff (altered_ascending previous current)
    fun name => ?_
  rw [mem_altered_iff, mem_altered_iff]
  constructor
  · rintro ⟨old, new, hold, hnew, hshown⟩
    exact ⟨new, old, hnew, hold, hshown.symm⟩
  · rintro ⟨old, new, hold, hnew, hshown⟩
    exact ⟨new, old, hnew, hold, hshown.symm⟩

theorem exists_stands_iff : (∃ file, Stands files name file) ↔ HasName files name := by
  rw [← mem_byName_iff, Std.ExtTreeMap.mem_iff_isSome_getElem?, Option.isSome_iff_exists]
  simp only [byName_eq_some_iff]

theorem exists_shows_iff : (∃ place, Shows files name place) ↔ HasName files name := by
  rw [← exists_stands_iff]
  constructor
  · rintro ⟨-, file, hfile, -⟩
    exact ⟨file, hfile⟩
  · rintro ⟨file, hfile⟩
    exact ⟨shown file, file, hfile, rfl⟩

theorem Stands.unique {file' : SourceFile} (h : Stands files name file)
    (h' : Stands files name file') : file = file' :=
  Option.some.inj ((byName_eq_some_iff.2 h).symm.trans (byName_eq_some_iff.2 h'))

theorem isEmpty_iff (d : FileDiff) :
    d.isEmpty = true ↔
      (∀ name, name ∉ d.appeared) ∧ (∀ name, name ∉ d.vanished) ∧ ∀ name, name ∉ d.altered := by
  simp only [isEmpty, Bool.and_eq_true, List.isEmpty_iff, List.eq_nil_iff_forall_not_mem, and_assoc]

/-- Under a name two sets show the same, or one of them only has it, or it is altered. -/
theorem shows_iff (previous current : FileSet) (name : String) :
    (∀ place, Shows previous name place ↔ Shows current name place) ↔
      name ∉ (between previous current).appeared ∧ name ∉ (between previous current).vanished ∧
        name ∉ (between previous current).altered := by
  rw [mem_appeared_iff, mem_vanished_iff, mem_altered_iff]
  constructor
  · intro hsame
    have hnames : HasName previous name ↔ HasName current name := by
      rw [← exists_shows_iff, ← exists_shows_iff]
      exact exists_congr hsame
    refine ⟨fun h => h.2 (hnames.2 h.1), fun h => h.2 (hnames.1 h.1), ?_⟩
    rintro ⟨old, new, hold, hnew, hshown⟩
    obtain ⟨new', hnew', hplace⟩ := (hsame (shown old)).1 ⟨old, hold, rfl⟩
    rw [hnew.unique hnew'] at hshown
    exact hshown hplace
  · rintro ⟨happeared, hvanished, haltered⟩ place
    have hkept : ∀ old new, Stands previous name old → Stands current name new →
        shown new = shown old :=
      fun old new hold hnew => not_not.1 fun hshown => haltered ⟨old, new, hold, hnew, hshown⟩
    constructor
    · rintro ⟨old, hold, rfl⟩
      obtain ⟨new, hnew⟩ := exists_stands_iff.2
        (not_not.1 fun hnone => hvanished ⟨exists_stands_iff.1 ⟨old, hold⟩, hnone⟩)
      exact ⟨new, hnew, hkept old new hold hnew⟩
    · rintro ⟨new, hnew, rfl⟩
      obtain ⟨old, hold⟩ := exists_stands_iff.2
        (not_not.1 fun hnone => happeared ⟨exists_stands_iff.1 ⟨new, hnew⟩, hnone⟩)
      exact ⟨old, hold, (hkept old new hold hnew).symm⟩

/-- What the difference of two sets tells, whatever the sets. Each of its parts is in ascending
order, and no name is in two of them. A set that has several files of one name shows the root and
the fingerprint of the greatest. Labels play no part in whether there is a difference. -/
theorem between_exact (previous current : FileSet) :
    let d := between previous current
    (d.appeared.Pairwise (· < ·) ∧ d.vanished.Pairwise (· < ·) ∧ d.altered.Pairwise (· < ·)) ∧
    (d.appeared.Disjoint d.vanished ∧ d.appeared.Disjoint d.altered ∧
      d.vanished.Disjoint d.altered) ∧
    (∀ name, name ∈ d.appeared ↔ HasName current name ∧ ¬HasName previous name) ∧
    (∀ name, name ∈ d.vanished ↔ HasName previous name ∧ ¬HasName current name) ∧
    (∀ name, name ∈ d.altered ↔ ∃ old new, Stands previous name old ∧ Stands current name new ∧
      (new.root.components ≠ old.root.components ∨ new.fingerprint ≠ old.fingerprint)) ∧
    between current previous = ⟨d.vanished, d.appeared, d.altered⟩ ∧
    (d.isEmpty = true ↔
      ∀ name place, Shows previous name place ↔ Shows current name place) := by
  intro d
  refine ⟨⟨appeared_ascending _ _, vanished_ascending _ _, altered_ascending _ _⟩, ⟨?_, ?_, ?_⟩,
    fun _ => mem_appeared_iff, fun _ => mem_vanished_iff, fun name => ?_, ?_, ?_⟩
  · intro name happeared hvanished
    exact (mem_vanished_iff.1 hvanished).2 (mem_appeared_iff.1 happeared).1
  · intro name happeared haltered
    obtain ⟨old, -, hold, -⟩ := mem_altered_iff.1 haltered
    exact (mem_appeared_iff.1 happeared).2 (exists_stands_iff.1 ⟨old, hold⟩)
  · intro name hvanished haltered
    obtain ⟨-, new, -, hnew, -⟩ := mem_altered_iff.1 haltered
    exact (mem_vanished_iff.1 hvanished).2 (exists_stands_iff.1 ⟨new, hnew⟩)
  · simp only [d, mem_altered_iff, shown, ne_eq, Prod.mk.injEq, not_and_or]
  · exact congrArg (FileDiff.mk d.vanished d.appeared) (altered_comm previous current)
  · rw [isEmpty_iff, ← forall_and, ← forall_and]
    exact forall_congr' fun name => (shows_iff previous current name).symm

/-- A file that stands behind a greater one of its name is not compared, nor is a label. -/
example :
    let fan : SourceFile := ⟨"a.mtr", ⟨"/fan"⟩, "fan", ⟨1, 1⟩⟩
    let wood : SourceFile := ⟨"a.mtr", ⟨"/wood"⟩, "wood", ⟨2, 2⟩⟩
    let other : SourceFile := ⟨"b.mtr", ⟨"/fan"⟩, "fan", ⟨1, 1⟩⟩
    let before : FileSet := ((∅ : FileSet).insert fan).insert wood |>.insert other
    let after : FileSet := ((∅ : FileSet).insert { wood with label := "grove" }).insert
      { other with fingerprint := ⟨1, 3⟩ }
    between before after = { altered := ["b.mtr"] } := by
  decide +kernel

end FileDiff

end AssetDecl
