import AssetDecl.Store
import Mathlib.Tactic

/-!
# What a store holds

`Store.stored?` shows what is stored under a key: the handle of a declaration, the declaration as it
is now and its origin. While no two keys have the same handle (`Store.Sound`), an operation changes
what is stored under its own key only.
-/

namespace AssetDecl

/-- What is stored under a key. -/
structure Stored where
  handle : Handle
  declaration : Declaration
  origin : Option DeclType
  deriving DecidableEq, Repr

/-- What installing a block makes of what was stored under its key: the declaration that is there
gets a new source, or else a new declaration is made. -/
def Stored.renew (c : Creator) (fresh : Handle) (block : BlockSource) (origin : DeclType) :
    Option Stored → Stored
  | some old => ⟨old.handle, old.declaration.setBlock block, some origin⟩
  | none => ⟨fresh, c.create block.name block, some origin⟩

namespace Store

variable {s s' : Store} {key key' : DeclKey} {t : DeclType} {name : String} {block : BlockSource}
  {origin : Option DeclType} {d : Declaration} {handle : Handle} {entry : StoreEntry}

def handle? (s : Store) (key : DeclKey) : Option Handle :=
  s.entries[key]?.map StoreEntry.handle

def stored? (s : Store) (key : DeclKey) : Option Stored :=
  s.entries[key]?.bind fun entry =>
    (s.declaration? entry.handle).map fun d => ⟨entry.handle, d, entry.origin⟩

/-- Every key leads to a declaration that has been made, and no two keys to the same. -/
structure Sound (s : Store) : Prop where
  made : ∀ key handle, s.handle? key = some handle → handle < s.objects.size
  apart : ∀ key key' handle, s.handle? key = some handle → s.handle? key' = some handle → key = key'

theorem sound_empty : ({} : Store).Sound := by
  constructor
  · intro key handle h
    simp [handle?] at h
  · intro key key' handle h
    simp [handle?] at h

/-! ## Keys and handles -/

theorem stored?_of_entry (h : s.entries[key]? = some entry) :
    s.stored? key = (s.declaration? entry.handle).map fun d => ⟨entry.handle, d, entry.origin⟩ := by
  unfold stored?
  rw [h, Option.bind_some]

theorem stored?_of_no_entry (h : s.entries[key]? = none) : s.stored? key = none := by
  unfold stored?
  rw [h, Option.bind_none]

theorem handle?_of_entry (h : s.entries[key]? = some entry) :
    s.handle? key = some entry.handle := by
  unfold handle?
  rw [h, Option.map_some]

theorem Sound.lt_of_entry (h : s.Sound) (he : s.entries[key]? = some entry) :
    entry.handle < s.objects.size :=
  h.made key _ (handle?_of_entry he)

theorem Sound.declaration_of_entry (h : s.Sound) (he : s.entries[key]? = some entry) :
    ∃ d, s.declaration? entry.handle = some d := by
  have hlt := h.lt_of_entry he
  exact ⟨s.objects[entry.handle], Array.getElem?_eq_getElem hlt⟩

theorem Sound.mem_entries_iff (h : s.Sound) (key : DeclKey) :
    key ∈ s.entries ↔ (s.stored? key).isSome := by
  rw [Std.ExtTreeMap.mem_iff_isSome_getElem?]
  cases hentry : s.entries[key]? with
  | none =>
    rw [stored?_of_no_entry hentry]
    simp
  | some entry =>
    obtain ⟨d, hd⟩ := h.declaration_of_entry hentry
    rw [stored?_of_entry hentry, hd]
    simp

/-- A store whose handles were all there before is sound. -/
theorem Sound.of_handles (h : s.Sound) (hsize : s.objects.size ≤ s'.objects.size)
    (hsub : ∀ key handle, s'.handle? key = some handle → s.handle? key = some handle) :
    s'.Sound := by
  constructor
  · intro key handle hkey
    exact (h.made key handle (hsub key handle hkey)).trans_le hsize
  · intro key key' handle hkey hkey'
    exact h.apart key key' handle (hsub key handle hkey) (hsub key' handle hkey')

/-! ## Replacing a source -/

theorem declaration?_setBlock (s : Store) (handle handle' : Handle) (block : BlockSource) :
    (s.setBlock handle block).declaration? handle' =
      if handle = handle' then (s.declaration? handle').map (·.setBlock block)
      else s.declaration? handle' :=
  Array.getElem?_modify

theorem Sound.setBlock (h : s.Sound) (handle : Handle) (block : BlockSource) :
    (s.setBlock handle block).Sound :=
  h.of_handles (Array.size_modify.ge) fun _ _ hkey => hkey

theorem isSome_stored?_setBlock (s : Store) (handle : Handle) (block : BlockSource)
    (key : DeclKey) : ((s.setBlock handle block).stored? key).isSome = (s.stored? key).isSome := by
  cases he : s.entries[key]? with
  | none =>
    have he' : (s.setBlock handle block).entries[key]? = none := he
    rw [stored?_of_no_entry he, stored?_of_no_entry he']
  | some entry =>
    have he' : (s.setBlock handle block).entries[key]? = some entry := he
    rw [stored?_of_entry he, stored?_of_entry he', Option.isSome_map, Option.isSome_map,
      declaration?_setBlock]
    split
    · exact Option.isSome_map
    · rfl

/-! ## Storing a new declaration -/

theorem handle?_insertNew (s : Store) (key key' : DeclKey) (d : Declaration)
    (origin : Option DeclType) :
    (s.insertNew key d origin).2.handle? key' =
      if key = key' then some s.objects.size else s.handle? key' := by
  unfold insertNew handle?
  simp only [Std.ExtTreeMap.getElem?_insert, DeclKey.compare_eq_eq]
  split <;> rfl

theorem Sound.insertNew (h : s.Sound) (key : DeclKey) (d : Declaration)
    (origin : Option DeclType) : (s.insertNew key d origin).2.Sound := by
  have hsize : (s.insertNew key d origin).2.objects.size = s.objects.size + 1 := Array.size_push _
  constructor
  · intro key' handle hkey'
    rw [handle?_insertNew] at hkey'
    split at hkey'
    · obtain rfl := Option.some.inj hkey'
      exact hsize.symm ▸ Nat.lt_succ_self _
    · exact hsize.symm ▸ Nat.lt_succ_of_lt (h.made key' handle hkey')
  · intro key₁ key₂ handle h₁ h₂
    rw [handle?_insertNew] at h₁ h₂
    split at h₁ <;> split at h₂
    · simp_all
    · obtain rfl := Option.some.inj h₁
      exact absurd (h.made key₂ _ h₂) (lt_irrefl _)
    · obtain rfl := Option.some.inj h₂
      exact absurd (h.made key₁ _ h₁) (lt_irrefl _)
    · exact h.apart key₁ key₂ handle h₁ h₂

theorem Sound.stored?_insertNew (h : s.Sound) (key key' : DeclKey) (d : Declaration)
    (origin : Option DeclType) :
    (s.insertNew key d origin).2.stored? key' =
      if key = key' then some ⟨s.objects.size, d, origin⟩ else s.stored? key' := by
  unfold Store.insertNew stored? declaration?
  simp only [Std.ExtTreeMap.getElem?_insert, DeclKey.compare_eq_eq]
  split
  · simp only [Option.bind_some, Array.getElem?_push_size, Option.map_some]
  · cases he : s.entries[key']? with
    | none => rfl
    | some entry =>
      simp only [Option.bind_some, Array.getElem?_push, if_neg (h.lt_of_entry he).ne]

/-! ## Removing entries -/

theorem handle?_remove (s : Store) (t : DeclType) (name : String) (key : DeclKey) :
    (s.remove t name).2.handle? key = if DeclKey.of t name = key then none else s.handle? key := by
  unfold remove handle?
  simp only [Std.ExtTreeMap.getElem?_erase, DeclKey.compare_eq_eq]
  split <;> rfl

theorem Sound.remove (h : s.Sound) (t : DeclType) (name : String) : (s.remove t name).2.Sound := by
  apply h.of_handles
  · exact le_rfl
  intro key handle hkey
  rw [handle?_remove] at hkey
  split at hkey
  · simp at hkey
  · exact hkey

theorem entries_dropVanished (s : Store) (origin : DeclType) (seen : DeclKey → Bool)
    (key : DeclKey) :
    (s.dropVanished origin seen).entries[key]? =
      s.entries[key]?.filter fun entry => !isVanished origin seen key entry :=
  Std.ExtTreeMap.getElem?_filter'

theorem Sound.dropVanished (h : s.Sound) (origin : DeclType) (seen : DeclKey → Bool) :
    (s.dropVanished origin seen).Sound := by
  apply h.of_handles
  · exact le_rfl
  intro key handle hkey
  unfold handle? at hkey
  rw [entries_dropVanished] at hkey
  obtain ⟨entry, he, rfl⟩ := Option.map_eq_some_iff.mp hkey
  exact handle?_of_entry (Option.filter_eq_some_iff.mp he).1

/-- An entry is kept if it is of another origin or has been seen. -/
theorem stored?_dropVanished (s : Store) (origin : DeclType) (seen : DeclKey → Bool)
    (key : DeclKey) :
    (s.dropVanished origin seen).stored? key =
      (s.stored? key).filter fun st => st.origin != some origin || seen key := by
  unfold stored?
  rw [entries_dropVanished]
  cases he : s.entries[key]? with
  | none => rfl
  | some entry =>
    have hkept : (!isVanished origin seen key entry) =
        (entry.origin != some origin || seen key) := by
      unfold isVanished
      rw [Bool.not_and, Bool.not_not]
      rfl
    rw [Option.filter_some, hkept, Option.bind_some]
    by_cases hseen : (entry.origin != some origin || seen key) = true
    · rw [if_pos hseen, Option.bind_some]
      show (s.declaration? entry.handle).map _ = _
      cases s.declaration? entry.handle with
      | none => rfl
      | some d => rw [Option.map_some, Option.filter_some, if_pos hseen]
    · rw [if_neg hseen, Option.bind_none]
      cases s.declaration? entry.handle with
      | none => rfl
      | some d => rw [Option.map_some, Option.filter_some, if_neg hseen]

/-! ## Installing a block -/

/-- The store after the source and the origin of an entry have been replaced. -/
def replace (s : Store) (key : DeclKey) (handle : Handle) (block : BlockSource)
    (origin : DeclType) : Store :=
  { s.setBlock handle block with entries := s.entries.insert key ⟨handle, some origin⟩ }

theorem entries_replace (s : Store) (key key' : DeclKey) (handle : Handle) (block : BlockSource)
    (origin : DeclType) :
    (s.replace key handle block origin).entries[key']? =
      if key = key' then some ⟨handle, some origin⟩ else s.entries[key']? := by
  unfold replace
  simp only [Std.ExtTreeMap.getElem?_insert, DeclKey.compare_eq_eq]

theorem handle?_replace (h : s.handle? key = some handle) (key' : DeclKey) (block : BlockSource)
    (origin : DeclType) :
    (s.replace key handle block origin).handle? key' = s.handle? key' := by
  unfold handle?
  rw [entries_replace]
  split
  · rename_i hkey
    subst hkey
    exact h.symm
  · rfl

theorem Sound.replace (h : s.Sound) (hh : s.handle? key = some handle) (block : BlockSource)
    (origin : DeclType) : (s.replace key handle block origin).Sound :=
  h.of_handles Array.size_modify.ge fun _ _ hkey => (handle?_replace hh _ _ _).symm.trans hkey

theorem Sound.stored?_replace (h : s.Sound) (he : s.entries[key]? = some entry) (key' : DeclKey)
    (block : BlockSource) (origin : DeclType) (c : Creator) (fresh : Handle) :
    (s.replace key entry.handle block origin).stored? key' =
      if key = key' then some (.renew c fresh block origin (s.stored? key'))
      else s.stored? key' := by
  have hentry := entries_replace s key key' entry.handle block origin
  split
  · rename_i hkey
    subst hkey
    rw [if_pos rfl] at hentry
    obtain ⟨d, hd⟩ := h.declaration_of_entry he
    rw [stored?_of_entry hentry, stored?_of_entry he, hd]
    show Option.map _ ((s.setBlock entry.handle block).declaration? entry.handle) = _
    rw [declaration?_setBlock, if_pos rfl, hd]
    rfl
  · rename_i hkey
    rw [if_neg hkey] at hentry
    cases he' : s.entries[key']? with
    | none => rw [stored?_of_no_entry he', stored?_of_no_entry (hentry.trans he')]
    | some entry' =>
      -- The other key leads to another declaration, whose source is not replaced.
      have hne : entry.handle ≠ entry'.handle := by
        intro heq
        exact hkey (h.apart key key' _ (handle?_of_entry he) (heq ▸ handle?_of_entry he'))
      rw [stored?_of_entry (hentry.trans he'), stored?_of_entry he']
      show Option.map _ ((s.setBlock entry.handle block).declaration? entry'.handle) = _
      rw [declaration?_setBlock, if_neg hne]

/-- Installing changes what is stored under the key of the block, and nothing else. -/
theorem Sound.install {b : Bindings} {c : Creator} (h : s.Sound) (hc : b.typeCreator? t = some c)
    (block : BlockSource) (origin : DeclType) :
    ∃ s', s.install b t block origin = some s' ∧ s'.Sound ∧
      ∀ key, s'.stored? key =
        if DeclKey.of t block.name = key then
          some (.renew c s.objects.size block origin (s.stored? key))
        else s.stored? key := by
  unfold Store.install
  rw [hc]
  dsimp only
  cases he : s.entries[DeclKey.of t block.name]? with
  | none =>
    refine ⟨_, rfl, h.insertNew _ _ _, fun key => ?_⟩
    rw [h.stored?_insertNew]
    split
    · rename_i hkey
      rw [← hkey, stored?_of_no_entry he]
      rfl
    · rfl
  | some entry =>
    exact ⟨s.replace _ entry.handle block origin, rfl, h.replace (handle?_of_entry he) block origin,
      fun key => h.stored?_replace he key block origin c s.objects.size⟩

end Store

end AssetDecl
