import AssetDecl.Proofs.ByteDecoding
import AssetDecl.ProjectConfig
import Mathlib.Data.String.Basic

/-!
# The order of encoded texts

Encoding keeps the order of characters, whatever follows them (`Utf8.utf8EncodeChar_append_lt`).
So texts come in the same order by their characters and by the bytes of their encodings
(`Utf8.encode_lt_encode_iff`), and the keywords of a configuration that has been loaded ascend in
both (`ProjectConfig.ascending_of_load`).
-/

namespace AssetDecl

namespace Utf8

/-- Between characters of different widths the lead bytes decide, between those of one width the
digits, the most significant of which come first. -/
theorem utf8EncodeChar_append_lt {c d : Char} (h : c < d) (as bs : List UInt8) :
    String.utf8EncodeChar c ++ as < String.utf8EncodeChar d ++ bs := by
  have hlt : c.val.toNat < d.val.toNat := h
  have hd : d.val.toNat < 0x110000 := by
    rcases d.valid with h | h <;> omega
  fun_cases String.utf8EncodeChar c <;> fun_cases String.utf8EncodeChar d <;>
    simp (disch := omega) only [List.cons_append, List.cons_lt_cons_iff, UInt8.lt_iff_toNat_lt,
      UInt8.toNat_ofNat', ← UInt8.toNat_inj, Nat.mod_eq_of_lt] <;> omega

theorem encode_lt_encode {text text' : String} (h : text < text') :
    encode text < encode text' := by
  rw [String.lt_iff_toList_lt] at h
  rw [encode_eq, encode_eq]
  generalize text.toList = cs, text'.toList = cs' at h
  induction cs generalizing cs' with
  | nil =>
    cases cs' with
    | nil => exact absurd h (List.lt_irrefl _)
    | cons c' cs' =>
      obtain ⟨b, bs, hb⟩ := List.exists_cons_of_ne_nil (String.utf8EncodeChar_ne_nil (c := c'))
      rw [List.flatMap_cons, hb]
      exact List.nil_lt_cons _ _
  | cons c cs ih =>
    cases cs' with
    | nil => exact absurd h (List.not_lt_nil _)
    | cons c' cs' =>
      rw [List.flatMap_cons, List.flatMap_cons]
      rcases List.cons_lt_cons_iff.mp h with hc | ⟨rfl, hcs⟩
      · exact utf8EncodeChar_append_lt hc _ _
      · exact List.append_left_lt (ih cs' hcs)

theorem encode_lt_encode_iff {text text' : String} : encode text < encode text' ↔ text < text' := by
  refine ⟨fun h => ?_, encode_lt_encode⟩
  rcases lt_trichotomy text text' with hlt | rfl | hlt
  · exact hlt
  · exact absurd h (List.lt_irrefl _)
  · exact absurd h (List.lt_asymm (encode_lt_encode hlt))

theorem encode_le_encode_iff {text text' : String} : encode text ≤ encode text' ↔ text ≤ text' := by
  rw [← List.not_lt, encode_lt_encode_iff, not_lt]

end Utf8

/-! ## Keywords of a configuration -/

namespace ProjectConfig

def keywords (config : ProjectConfig) : List String :=
  config.types.map Prod.fst

/-- The keywords come in the ascending order of their bytes, each once. -/
def Ascending (config : ProjectConfig) : Prop :=
  config.keywords.Pairwise fun k k' => Utf8.encode k < Utf8.encode k'

theorem ascending_iff {config : ProjectConfig} :
    config.Ascending ↔ config.keywords.Pairwise (· < ·) := by
  unfold Ascending
  simp only [Utf8.encode_lt_encode_iff]

instance (config : ProjectConfig) : Decidable config.Ascending :=
  decidable_of_iff _ ascending_iff.symm

theorem pairwise_types? {v : Toml.Value} {types : List (String × DeclType)}
    (h : types? v = some types) : (types.map Prod.fst).Pairwise (· < ·) := by
  unfold types? at h
  obtain ⟨entries, -, h⟩ := Option.bind_eq_some_iff.mp h
  obtain ⟨pairs, -, h⟩ := Option.bind_eq_some_iff.mp h
  obtain rfl := Option.some.inj h
  rw [List.pairwise_map]
  exact Std.ExtTreeMap.ordered_keys_toList.imp compare_lt_iff_lt.mp

/-- A configuration that has been read has its keywords in order. -/
theorem ascending_of_parse {text : String} {config : ProjectConfig}
    (h : parse text = .ok config) : config.Ascending := by
  rw [ascending_iff]
  unfold parse at h
  split at h
  · rename_i read hread
    obtain rfl := Except.ok.inj h
    obtain ⟨entries, -, hentries⟩ := Option.bind_eq_some_iff.mp hread
    unfold ofEntries? at hentries
    obtain ⟨-, -, hentries⟩ := Option.bind_eq_some_iff.mp hentries
    obtain ⟨roots, -, hentries⟩ := Option.bind_eq_some_iff.mp hentries
    obtain ⟨depthLimit, -, hentries⟩ := Option.bind_eq_some_iff.mp hentries
    obtain ⟨sizeLimit, -, hentries⟩ := Option.bind_eq_some_iff.mp hentries
    obtain ⟨types, htypes, hentries⟩ := Option.bind_eq_some_iff.mp hentries
    obtain ⟨folders, -, hentries⟩ := Option.bind_eq_some_iff.mp hentries
    obtain rfl := Option.some.inj hentries
    show (types.map Prod.fst).Pairwise (· < ·)
    unfold entry? at htypes
    split at htypes
    · obtain rfl := Option.some.inj htypes
      exact .nil
    · exact pairwise_types? htypes
  · simp at h

/-- A project has its keywords in order, with a file or without. -/
theorem ascending_of_load {tree : FileTree} {root : Path} {config? : Option ProjectConfig}
    (h : load tree root = .ok config?) : (config?.getD {}).Ascending := by
  have hdefault : ({} : ProjectConfig).Ascending := .nil
  unfold load at h
  split at h
  · exact Except.ok.inj h ▸ hdefault
  · split at h
    · simp at h
    · split at h
      · simp at h
      · rename_i text _
        cases hparse : parse text with
        | error e => simp [hparse, Except.map] at h
        | ok config =>
          rw [hparse] at h
          exact Except.ok.inj h ▸ ascending_of_parse hparse

end ProjectConfig

end AssetDecl
