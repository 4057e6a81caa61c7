import AssetDecl.Proofs.DeferredAssignment
import AssetDecl.Proofs.EncodedOrder
import AssetDecl.Proofs.IdleSystem
import AssetDecl.Proofs.OpenedProjects

/-!
# Configured catalogues

A configuration is carried out call by call: its keywords are bound in order, then its folders are
added in order, each with a scan that goes on while further folders are added
(`System.Configures`). At every moment the keywords so far are bound, the folders so far are there,
each once, and before the first folder no scan has been started (`System.Configured`). The calls
fail exactly if two keywords are equal up to the case of ASCII letters, and then at the least
keyword that repeats a smaller one (`Catalogue.ofConfig_exact`). So a project whose configuration
has been loaded is refused for that keyword or for none (`Cli.openProject_eq_alreadyBound_iff`).
-/

namespace AssetDecl

/-! ## Entries of a configuration -/

def FolderEntry.toFolder (f : FolderEntry) : DeclFolder :=
  .normalized f.defaultType f.folder f.extension

/-- The binding of a configured keyword. -/
def KeywordBinding.plain (type : String × DeclType) : KeywordBinding :=
  ⟨type.1, .plain type.2⟩

theorem KeywordBinding.map_key_plain (types : List (String × DeclType)) :
    (types.map plain).map key = types.map fun type => Text.foldCase type.1 :=
  List.map_map

theorem eraseDups_concat {α : Type} [BEq α] [LawfulBEq α] (as : List α) (a : α) :
    (as ++ [a]).eraseDups =
      if as.eraseDups.contains a then as.eraseDups else as.eraseDups ++ [a] := by
  rw [List.eraseDups_append]
  by_cases ha : a ∈ as <;> simp [List.removeAll, List.eraseDups_cons, ha]

namespace System

variable {s s' s'' : System} {e : Event} {keyword : String} {t : DeclType} {cat : Catalogue}
  {changed : TypeSet} {types : List (String × DeclType)} {folders more : List FolderEntry}
  {f : FolderEntry} {result : Except Failure Unit}

/-! ## Calls -/

/-- A scan takes a step, or the worker of a completed scan ends. -/
def Event.OfScan : Event → Prop
  | .advance .. | .leave _ => True
  | _ => False

/-- The keywords are bound and the folders added in order, up to the first call that fails. Scans
that have been started go on in between, on whatever files there are. Starting a worker is taken
never to fail. -/
inductive Configures : System → List (String × DeclType) → List FolderEntry →
    Except Failure Unit → System → Prop where
  | done (s : System) : Configures s [] [] (.ok ()) s
  | refused {s : System} {keyword : String} {t : DeclType} {types : List (String × DeclType)}
    {folders : List FolderEntry} {e : Failure}
    (hbind : s.catalogue.bindType keyword (.plain t) = .error e) :
    Configures s ((keyword, t) :: types) folders (.error e) s
  | bound {s s' : System} {keyword : String} {t : DeclType} {types : List (String × DeclType)}
    {folders : List FolderEntry} {result : Except Failure Unit} {cat : Catalogue}
    {changed : TypeSet} (hbind : s.catalogue.bindType keyword (.plain t) = .ok (cat, changed))
    (hrest : Configures { s with catalogue := cat } types folders result s') :
    Configures s ((keyword, t) :: types) folders result s'
  | added {s s' : System} {f : FolderEntry} {folders : List FolderEntry}
    {result : Except Failure Unit}
    (hrest : Configures (s.perform (.addFolder f.defaultType f.folder f.extension)) [] folders
      result s') :
    Configures s [] (f :: folders) result s'
  | meanwhile {s s' : System} {types : List (String × DeclType)} {folders : List FolderEntry}
    {result : Except Failure Unit} {e : Event} (he : e.OfScan)
    (hrest : Configures (s.perform e) types folders result s') :
    Configures s types folders result s'

theorem Configures.trans (h : s.Configures types folders (.ok ()) s')
    (h' : s'.Configures [] more result s'') : s.Configures types (folders ++ more) result s'' := by
  generalize hok : (Except.ok () : Except Failure Unit) = first at h
  induction h with
  | done s => exact h'
  | refused hbind => simp at hok
  | bound hbind _ ih => exact .bound hbind (ih h' hok)
  | added _ ih => exact .added (ih h' hok)
  | meanwhile he _ ih => exact .meanwhile he (ih h' hok)

/-! ## What has been done so far -/

/-- No scan has been started. -/
structure Unscanned (s : System) : Prop where
  scans : s.scans = []
  leaving : s.leaving = []
  tickets : s.catalogue.tickets = ∅
  superseded : s.catalogue.superseded = []
  generation : s.catalogue.generation = 0

/-- These keywords have been bound, and then these folders added. -/
structure Configured (types : List (String × DeclType)) (folders : List FolderEntry)
    (s : System) : Prop where
  binds : s.catalogue.bindings.Binds (types.map .plain)
  distinct : (types.map fun type => Text.foldCase type.1).Nodup
  folders_eq : s.catalogue.folders = (folders.map FolderEntry.toFolder).eraseDups
  unscanned : folders = [] → s.Unscanned

theorem configured_start (limits : ScanLimits) :
    Configured [] [] { catalogue := { limits } } :=
  ⟨Bindings.binds_empty, .nil, rfl, fun _ => ⟨rfl, rfl, rfl, rfl, rfl⟩⟩

theorem Configured.bound (h : s.Configured types [])
    (hbind : s.catalogue.bindType keyword (.plain t) = .ok (cat, changed)) :
    Configured (types ++ [(keyword, t)]) [] { s with catalogue := cat } := by
  unfold Catalogue.bindType at hbind
  cases hkeyword : s.catalogue.bindings.bindKeyword keyword (.plain t) with
  | error e => simp [hkeyword] at hbind
  | ok bindings =>
    rw [hkeyword] at hbind
    obtain ⟨rfl, -⟩ := Prod.mk.inj (Except.ok.inj hbind)
    have hnew : Text.foldCase keyword ∉
        (types.map KeywordBinding.plain).map KeywordBinding.key := by
      rw [← h.binds.isBound_iff]
      intro hbound
      rw [Bindings.bindKeyword, if_pos hbound] at hkeyword
      simp at hkeyword
    obtain ⟨b', hb', hbinds⟩ := h.binds.bindKeyword (k := .plain (keyword, t)) hnew
    obtain rfl : b' = bindings := Except.ok.inj (hb'.symm.trans hkeyword)
    refine ⟨?_, ?_, h.folders_eq, fun _ => ?_⟩
    · rw [List.map_append]
      exact hbinds
    · rw [List.map_append, List.map_singleton, List.nodup_append]
      rw [KeywordBinding.map_key_plain] at hnew
      refine ⟨h.distinct, List.nodup_singleton _, fun key hkey key' hkey' heq => hnew ?_⟩
      rwa [← List.mem_singleton.mp hkey', ← heq]
    · obtain ⟨hscans, hleaving, htickets, hsuperseded, hgeneration⟩ := h.unscanned rfl
      exact ⟨hscans, hleaving, htickets, hsuperseded, hgeneration⟩

theorem Configured.refused {e : Failure} (h : s.Configured types folders)
    (hbind : s.catalogue.bindType keyword (.plain t) = .error e) :
    e = .alreadyBound keyword ∧
      Text.foldCase keyword ∈ types.map fun type => Text.foldCase type.1 := by
  rw [← KeywordBinding.map_key_plain, ← h.binds.isBound_iff]
  unfold Catalogue.bindType Bindings.bindKeyword at hbind
  split at hbind
  · rename_i e' hrefused
    split at hrefused
    · rename_i hbound
      exact ⟨(Except.error.inj hbind).symm.trans (Except.error.inj hrefused).symm, hbound⟩
    · simp at hrefused
  · simp at hbind

theorem Configured.added (h : s.Configured types folders) (f : FolderEntry) :
    Configured types (folders ++ [f])
      (s.perform (.addFolder f.defaultType f.folder f.extension)) := by
  refine ⟨h.binds, h.distinct, ?_, by simp⟩
  rw [List.map_append, List.map_singleton, eraseDups_concat, ← h.folders_eq]
  rfl

theorem folders_of_ofScan (he : e.OfScan) (s : System) :
    (s.perform e).catalogue.folders = s.catalogue.folders := by
  cases e with
  | advance index access =>
    show (s.advance index access).catalogue.folders = _
    rw [advance_eq]
    split
    · rfl
    · split
      · rfl
      · unfold Catalogue.completeScan
        split <;> rfl
      · rfl
  | leave index =>
    show (s.leave index).catalogue.folders = _
    unfold leave
    split <;> rfl
  | _ => exact absurd he id

theorem Configured.meanwhile (h : s.Configured types folders) (he : e.OfScan) :
    (s.perform e).Configured types folders := by
  have hbindings : (s.perform e).catalogue.bindings = s.catalogue.bindings := by
    rw [bindings_perform]
    cases e <;> first | rfl | exact absurd he id
  refine ⟨hbindings ▸ h.binds, h.distinct, (folders_of_ofScan he s).trans h.folders_eq, ?_⟩
  intro hfolders
  have hs := h.unscanned hfolders
  -- Nothing is under way yet that could take a step.
  have hsame : s.perform e = s := by
    cases e with
    | advance index access => exact advance_of_no_scans hs.scans index access
    | leave index =>
      show s.leave index = s
      unfold leave
      rw [hs.leaving]
      rfl
    | _ => exact absurd he id
  rwa [hsame]

/-- All calls are made, or one of them is for a keyword that has been bound before up to the case of
letters. -/
theorem Configures.outcome (h : s.Configures types folders result s')
    {before : List (String × DeclType)} {added : List FolderEntry}
    (hs : s.Configured before added) (hadded : types = [] ∨ added = []) :
    (result = .ok () ∧ s'.Configured (before ++ types) (added ++ folders)) ∨
    ∃ between keyword t after, types = between ++ (keyword, t) :: after ∧
      result = .error (.alreadyBound keyword) ∧ s'.Configured (before ++ between) [] ∧
      Text.foldCase keyword ∈ (before ++ between).map fun type => Text.foldCase type.1 := by
  induction h generalizing before added with
  | done s => exact .inl ⟨rfl, by simpa using hs⟩
  | refused hbind =>
    obtain rfl := hadded.resolve_left (by simp)
    obtain ⟨rfl, hrepeated⟩ := hs.refused hbind
    exact .inr ⟨[], _, _, _, rfl, rfl, by simpa using hs, by simpa using hrepeated⟩
  | @bound s s' keyword t types folders result cat changed hbind _ ih =>
    obtain rfl := hadded.resolve_left (by simp)
    rcases ih (hs.bound hbind) (.inr rfl) with
      ⟨hok, hs'⟩ | ⟨between, k, t', after, rfl, hfail, hs', hk⟩
    · exact .inl ⟨hok, by simpa using hs'⟩
    · exact .inr ⟨(keyword, t) :: between, k, t', after, rfl, hfail, by simpa using hs',
        by simpa using hk⟩
  | @added s s' f folders result _ ih =>
    rcases ih (hs.added f) (.inl rfl) with ⟨hok, hs'⟩ | ⟨between, k, t', after, hnil, -⟩
    · exact .inl ⟨hok, by simpa using hs'⟩
    · simp at hnil
  | meanwhile he _ ih => exact ih (hs.meanwhile he) hadded

/-! ## The calls of a configuration -/

theorem configures_bindPlain (types : List (String × DeclType)) (s : System) :
    (∃ e, s.catalogue.bindPlain types = .error e ∧
      ∀ folders, ∃ s', s.Configures types folders (.error e) s') ∨
    ∃ cat, s.catalogue.bindPlain types = .ok cat ∧
      s.Configures types [] (.ok ()) { s with catalogue := cat } := by
  induction types generalizing s with
  | nil => exact .inr ⟨s.catalogue, rfl, .done s⟩
  | cons type types ih =>
    obtain ⟨keyword, t⟩ := type
    rw [Catalogue.bindPlain_cons]
    cases hbind : s.catalogue.bindType keyword (.plain t) with
    | error e => exact .inl ⟨e, rfl, fun folders => ⟨s, .refused hbind⟩⟩
    | ok bound =>
      rcases ih { s with catalogue := bound.1 } with ⟨e, he, hfails⟩ | ⟨cat, hcat, hends⟩
      · refine .inl ⟨e, he, fun folders => ?_⟩
        obtain ⟨s', hs'⟩ := hfails folders
        exact ⟨s', .bound hbind hs'⟩
      · exact .inr ⟨cat, hcat, .bound hbind hends⟩

theorem configures_addFolders (s : System) (folders : List FolderEntry) :
    s.Configures [] folders (.ok ()) (s.start (s.catalogue.addFolders folders)) := by
  induction folders using List.reverseRecOn with
  | nil =>
    rw [start_addFolders_nil]
    exact .done s
  | append_singleton folders f ih =>
    rw [start_addFolders_concat]
    exact ih.trans (.added (.done _))

/-- Carrying out a configuration in one go is one way to make its calls. -/
theorem exists_configures (config : ProjectConfig) :
    ∃ s, Configures { catalogue := { limits := config.limits } } config.types config.folders
        ((Catalogue.ofConfig config).map fun _ => ()) s ∧
      ∀ started cat, Catalogue.ofConfig config = .ok (started, cat) →
        s = { catalogue := cat, scans := started } := by
  unfold Catalogue.ofConfig
  dsimp only
  rcases configures_bindPlain config.types { catalogue := { limits := config.limits } } with
    ⟨e, he, hfails⟩ | ⟨plain, hplain, hbinds⟩
  · obtain ⟨s, hs⟩ := hfails config.folders
    rw [he]
    exact ⟨s, hs, fun started cat hok => by simp [Except.map] at hok⟩
  · rw [hplain]
    refine ⟨_, hbinds.trans (configures_addFolders _ config.folders), fun started cat hok => ?_⟩
    have hok : plain.addFolders config.folders = (started, cat) := Except.ok.inj hok
    show start _ (plain.addFolders config.folders) = _
    rw [hok]
    rfl

end System

/-! ## Repeated keywords -/

namespace ProjectConfig

variable {config : ProjectConfig} {keyword : String}

/-- A keyword of the configuration of which it has a smaller one that differs in the case of ASCII
letters alone. -/
def Repeats (config : ProjectConfig) (keyword : String) : Prop :=
  keyword ∈ config.keywords ∧ ∃ smaller ∈ config.keywords,
    Utf8.encode smaller < Utf8.encode keyword ∧ Text.Recased smaller keyword

/-- The least such keyword in the order of bytes. -/
structure LeastRepeat (config : ProjectConfig) (keyword : String) : Prop where
  repeats : config.Repeats keyword
  least : ∀ other, config.Repeats other → Utf8.encode keyword ≤ Utf8.encode other

theorem LeastRepeat.unique {keyword' : String} (h : config.LeastRepeat keyword)
    (h' : config.LeastRepeat keyword') : keyword = keyword' :=
  le_antisymm (Utf8.encode_le_encode_iff.mp (h.least _ h'.repeats))
    (Utf8.encode_le_encode_iff.mp (h'.least _ h.repeats))

theorem exists_repeats_iff : (∃ keyword, config.Repeats keyword) ↔
    ∃ k ∈ config.keywords, ∃ k' ∈ config.keywords, k ≠ k' ∧ Text.Recased k k' := by
  constructor
  · rintro ⟨keyword, hkeyword, smaller, hsmaller, hlt, hrecased⟩
    refine ⟨smaller, hsmaller, keyword, hkeyword, ?_, hrecased⟩
    rintro rfl
    exact List.lt_irrefl _ hlt
  · rintro ⟨k, hk, k', hk', hne, hrecased⟩
    rcases lt_or_gt_of_ne hne with hlt | hlt
    · exact ⟨k', hk', k, hk, Utf8.encode_lt_encode hlt, hrecased⟩
    · exact ⟨k, hk, k', hk', Utf8.encode_lt_encode hlt,
        Text.recased_iff.mpr (Text.recased_iff.mp hrecased).symm⟩

/-- Keywords that are all different when case folded do not repeat one another. -/
theorem not_repeats_of_nodup (h : (config.keywords.map Text.foldCase).Nodup) :
    ¬config.Repeats keyword := by
  rintro ⟨hkeyword, smaller, hsmaller, hlt, hrecased⟩
  have hsame : smaller = keyword :=
    List.inj_on_of_nodup_map h hsmaller hkeyword (Text.recased_iff.mp hrecased).symm
  rw [hsame] at hlt
  exact List.lt_irrefl _ hlt

/-- The first keyword that has been there before is the least one that repeats another. -/
theorem Ascending.leastRepeat (h : config.Ascending) {before after : List String}
    (hkeywords : config.keywords = before ++ keyword :: after)
    (hdistinct : (before.map Text.foldCase).Nodup)
    (hrepeated : Text.foldCase keyword ∈ before.map Text.foldCase) :
    config.LeastRepeat keyword := by
  rw [ascending_iff, hkeywords, List.pairwise_append, List.pairwise_cons] at h
  obtain ⟨-, ⟨hafter, -⟩, hbefore⟩ := h
  have mem_before {k : String} (hk : k ∈ config.keywords) (hlt : k < keyword) : k ∈ before := by
    rw [hkeywords, List.mem_append, List.mem_cons] at hk
    rcases hk with hk | rfl | hk
    · exact hk
    · exact absurd hlt (lt_irrefl _)
    · exact absurd hlt (hafter k hk).asymm
  constructor
  · obtain ⟨smaller, hsmaller, hfold⟩ := List.mem_map.mp hrepeated
    refine ⟨by simp [hkeywords], smaller, by simp [hkeywords, hsmaller], ?_, ?_⟩
    · exact Utf8.encode_lt_encode (hbefore smaller hsmaller keyword List.mem_cons_self)
    · exact Text.recased_iff.mpr hfold.symm
  · rintro other ⟨hother, smaller, hsmaller, hlt, hrecased⟩
    rw [Utf8.encode_lt_encode_iff] at hlt
    rw [Utf8.encode_le_encode_iff]
    -- A smaller one and what it repeats would both have been there before.
    by_contra hless
    have hless : other < keyword := not_le.mp hless
    have hsame : smaller = other := List.inj_on_of_nodup_map hdistinct
      (mem_before hsmaller (hlt.trans hless)) (mem_before hother hless)
      (Text.recased_iff.mp hrecased).symm
    exact absurd hlt (hsame ▸ lt_irrefl _)

end ProjectConfig

/-! ## Outcomes -/

section

variable {config : ProjectConfig} {s : System} {result : Except Failure Unit} {keyword : String}
  {t : DeclType} {types : List (String × DeclType)} {folders : List FolderEntry}

theorem System.Configured.keywordCreator?_eq (h : s.Configured types folders)
    (hmem : (keyword, t) ∈ types) {keyword' : String} (hrecased : Text.Recased keyword keyword') :
    s.catalogue.bindings.keywordCreator? keyword' = some (.plain t) := by
  have hbound := (h.binds (Text.foldCase keyword) (.plain t)).mpr
    ⟨.plain (keyword, t), List.mem_map_of_mem hmem, rfl, rfl⟩
  rwa [← hrecased.foldCase_eq] at hbound

/-- All calls of a configuration are made if no keyword repeats another. Otherwise the least one
that does is refused, before any scan has been started. -/
theorem System.Configures.outcome_of_ascending (hconfig : config.Ascending)
    (h : Configures { catalogue := { limits := config.limits } } config.types config.folders
      result s) :
    (result = .ok () ∧ s.Configured config.types config.folders ∧ ∀ k, ¬config.Repeats k) ∨
    ∃ keyword, result = .error (.alreadyBound keyword) ∧ s.Unscanned ∧
      config.LeastRepeat keyword := by
  have hmap (types : List (String × DeclType)) :
      (types.map Prod.fst).map Text.foldCase = types.map fun type => Text.foldCase type.1 :=
    List.map_map
  rcases h.outcome (configured_start config.limits) (.inr rfl) with
    ⟨hok, hs⟩ | ⟨before, keyword, t, after, htypes, hfail, hs, hrepeated⟩
  · refine .inl ⟨hok, hs, fun k => ProjectConfig.not_repeats_of_nodup ?_⟩
    rw [ProjectConfig.keywords, hmap]
    exact hs.distinct
  · refine .inr ⟨keyword, hfail, hs.unscanned rfl, ?_⟩
    have hkeywords : config.keywords =
        before.map Prod.fst ++ keyword :: after.map Prod.fst := by
      rw [ProjectConfig.keywords, htypes, List.map_append, List.map_cons]
    refine hconfig.leastRepeat hkeywords ?_ ?_
    · rw [hmap]
      exact hs.distinct
    · rw [hmap]
      exact hrepeated

theorem System.Configures.eq_error_iff (hconfig : config.Ascending)
    (h : Configures { catalogue := { limits := config.limits } } config.types config.folders
      result s) (e : Failure) :
    result = .error e ↔ ∃ keyword, e = .alreadyBound keyword ∧ config.LeastRepeat keyword := by
  rcases h.outcome_of_ascending hconfig with ⟨rfl, -, hnone⟩ | ⟨keyword, rfl, -, hleast⟩
  · constructor
    · intro he
      simp at he
    · rintro ⟨keyword, -, hleast⟩
      exact absurd hleast.repeats (hnone keyword)
  · rw [Except.error.injEq]
    constructor
    · rintro rfl
      exact ⟨keyword, rfl, hleast⟩
    · rintro ⟨keyword', rfl, hleast'⟩
      rw [hleast.unique hleast']

theorem Catalogue.map_ofConfig_eq_error_iff (config : ProjectConfig) (e : Failure) :
    (ofConfig config).map (fun _ => ()) = .error e ↔ ofConfig config = .error e := by
  cases ofConfig config <;> simp [Except.map]

theorem Catalogue.ofConfig_eq_error_iff (hconfig : config.Ascending) (e : Failure) :
    ofConfig config = .error e ↔
      ∃ keyword, e = .alreadyBound keyword ∧ config.LeastRepeat keyword := by
  obtain ⟨s, hcalls, -⟩ := System.exists_configures config
  rw [← map_ofConfig_eq_error_iff, hcalls.eq_error_iff hconfig]

/-- A configuration cannot be carried out exactly if two of its keywords are equal up to the case of
ASCII letters, and the failure names the least keyword that repeats a smaller one. However the scans
that have been started go on between the calls, these come to the same end. If one fails, no scan
has been started. If all are made, every keyword is bound, in any case of letters, to a creator of
its type, and the folders are there in their order and in normal form, each once. -/
theorem Catalogue.ofConfig_exact (hconfig : config.Ascending) :
    let start : System := { catalogue := { limits := config.limits } }
    ((∃ e, ofConfig config = .error e) ↔
      ∃ k ∈ config.keywords, ∃ k' ∈ config.keywords, k ≠ k' ∧ Text.Recased k k') ∧
    (∀ e, ofConfig config = .error e ↔
      ∃ keyword, e = .alreadyBound keyword ∧ config.LeastRepeat keyword) ∧
    (∃ s, start.Configures config.types config.folders ((ofConfig config).map fun _ => ()) s ∧
      ∀ started cat, ofConfig config = .ok (started, cat) →
        s = { catalogue := cat, scans := started }) ∧
    ∀ result s, start.Configures config.types config.folders result s →
      result = (ofConfig config).map (fun _ => ()) ∧
      (∀ e, result = .error e → s.Unscanned) ∧
      (result = .ok () →
        (∀ keyword t, (keyword, t) ∈ config.types → ∀ keyword', Text.Recased keyword keyword' →
          s.catalogue.bindings.keywordCreator? keyword' = some (.plain t)) ∧
        s.catalogue.folders = (config.folders.map FolderEntry.toFolder).eraseDups) := by
  intro start
  obtain ⟨s₀, hcalls, hstate⟩ := System.exists_configures config
  have hfails := ofConfig_eq_error_iff hconfig
  refine ⟨?_, hfails, ⟨s₀, hcalls, hstate⟩, fun result s h => ⟨?_, ?_, ?_⟩⟩
  · rw [← ProjectConfig.exists_repeats_iff]
    constructor
    · rintro ⟨e, he⟩
      obtain ⟨keyword, -, hleast⟩ := (hfails e).mp he
      exact ⟨keyword, hleast.repeats⟩
    · rintro ⟨k, hk⟩
      rcases hcalls.outcome_of_ascending hconfig with ⟨-, -, hnone⟩ | ⟨keyword, hfail, -⟩
      · exact absurd hk (hnone k)
      · exact ⟨_, (map_ofConfig_eq_error_iff config _).mp hfail⟩
  · have hsame (e : Failure) :
        result = .error e ↔ (ofConfig config).map (fun _ => ()) = .error e := by
      rw [h.eq_error_iff hconfig, hcalls.eq_error_iff hconfig]
    cases result with
    | error e => exact ((hsame e).mp rfl).symm
    | ok _ =>
      cases hresult : (ofConfig config).map fun _ => () with
      | error e => simpa using (hsame e).mpr hresult
      | ok _ => rfl
  · intro e he
    rcases h.outcome_of_ascending hconfig with ⟨hok, -⟩ | ⟨keyword, -, hunscanned, -⟩
    · simp [hok] at he
    · exact hunscanned
  · intro hok
    rcases h.outcome_of_ascending hconfig with ⟨-, hs, -⟩ | ⟨keyword, hfail, -⟩
    · exact ⟨fun keyword t hmem keyword' hrecased => hs.keywordCreator?_eq hmem hrecased,
        hs.folders_eq⟩
    · simp [hok] at hfail

/-- In one configuration three keywords repeat others, and the least of them starts with a capital.
In another one a folder is written in two ways. -/
theorem Catalogue.ofConfig_exact_heath :
    let material : DeclType := ⟨"material"⟩
    let skin : DeclType := ⟨"skin"⟩
    let moss : ProjectConfig :=
      { types := [("Fog", skin), ("MOSS", material), ("Moss", skin), ("fog", skin),
          ("moss", material)]
        folders := [⟨"m", "mtr", material⟩] }
    let heath : ProjectConfig :=
      { types := [("Heath", material), ("skin", skin)]
        folders := [⟨"m\\a", "mtr", material⟩, ⟨"s", "", skin⟩, ⟨"m/a/", ".mtr", material⟩,
          ⟨"m/a", "mtr", skin⟩] }
    moss.Ascending ∧ Catalogue.ofConfig moss = .error (.alreadyBound "Moss") ∧
      moss.LeastRepeat "Moss" ∧ heath.Ascending ∧
      ∃ started cat, Catalogue.ofConfig heath = .ok (started, cat) ∧
        cat.bindings.keywordCreator? "hEATh" = some (.plain material) ∧
        cat.folders = [⟨"m/a/", ".mtr", material⟩, ⟨"s/", "", skin⟩, ⟨"m/a/", ".mtr", skin⟩] := by
  intro material skin moss heath
  have hmoss : moss.Ascending := by decide +kernel
  have hheath : heath.Ascending := by decide +kernel
  have hfail : Catalogue.ofConfig moss = .error (.alreadyBound "Moss") := rfl
  obtain ⟨keyword, hkeyword, hleast⟩ := ((ofConfig_exact hmoss).2.1 _).mp hfail
  obtain rfl := Failure.alreadyBound.inj hkeyword
  obtain ⟨started, cat, hok⟩ : ∃ started cat, Catalogue.ofConfig heath = .ok (started, cat) :=
    ⟨_, _, rfl⟩
  obtain ⟨-, -, ⟨s, hcalls, hstate⟩, hends⟩ := ofConfig_exact hheath
  obtain ⟨-, -, hset⟩ := hends _ s hcalls
  rw [hok, hstate started cat hok] at hset
  obtain ⟨hbound, hfolders⟩ := hset rfl
  refine ⟨hmoss, hfail, hleast, hheath, started, cat, hok, ?_, ?_⟩
  · exact hbound "Heath" material (by decide) "hEATh" (by decide)
  · rw [hfolders]
    decide

end

/-! ## Loaded configurations -/

theorem ScanTicket.join?_ne_alreadyBound (ticket : ScanTicket) (keyword : String) :
    ticket.join? ≠ some (.error (.alreadyBound keyword)) := by
  unfold join?
  split <;> simp

/-- Waiting for scans tells of no keyword. -/
theorem Catalogue.joinEvery_ne_alreadyBound (cat : Catalogue) (order : TableOrder DeclType)
    (keyword : String) (cat' : Catalogue) :
    cat.joinEvery order ≠ some (.error (.alreadyBound keyword), cat') := by
  intro hjoin
  obtain ⟨result, hresult, heq⟩ := Option.map_eq_some_iff.mp hjoin
  obtain rfl : result = .error (.alreadyBound keyword) := congrArg Prod.fst heq
  obtain ⟨ticket, -, hticket⟩ := ScanTicket.exists_of_joinAll_error hresult
  exact ticket.join?_ne_alreadyBound keyword hticket

/-- Opening a project is refused for a keyword exactly if its configuration repeats one, and the
least of those is named. -/
theorem Cli.openProject_eq_alreadyBound_iff {tree : FileTree} {root : Path} {keyword : String}
    {config? : Option ProjectConfig} (hload : ProjectConfig.load tree root = .ok config?) :
    openProject tree root = .error (.alreadyBound keyword) ↔
      (config?.getD {}).LeastRepeat keyword := by
  have hfails := Catalogue.ofConfig_eq_error_iff (ProjectConfig.ascending_of_load hload)
  have hleast : Catalogue.ofConfig (config?.getD {}) = .error (.alreadyBound keyword) ↔
      (config?.getD {}).LeastRepeat keyword := by
    rw [hfails]
    constructor
    · rintro ⟨keyword', heq, h⟩
      exact Failure.alreadyBound.inj heq ▸ h
    · exact fun h => ⟨keyword, rfl, h⟩
  rw [← hleast]
  unfold openProject
  rw [hload]
  dsimp only [bind, Except.bind]
  split
  · rename_i e hconfig
    rw [hconfig]
    simp
  · rename_i made hconfig
    rw [hconfig]
    refine iff_of_false (fun hopen => ?_) (by simp)
    split at hopen
    · simp at hopen
    · rename_i result cat hjoin
      cases result with
      | ok _ => simp [Except.map] at hopen
      | error e =>
        obtain rfl := Except.error.inj hopen
        exact Catalogue.joinEvery_ne_alreadyBound _ .listed keyword cat hjoin

end AssetDecl
