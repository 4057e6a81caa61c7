import AssetDecl.Proofs.ByteDecoding

/-!
# Lossy decoding

Lossy decoding gives an encoded text back (`Utf8.decodeLossy_encode`), piece by piece. Whatever it
makes of other bytes is a text, whose encoding they are not. So bytes are the encoding of a text
exactly if decoding and encoding them again changes nothing (`Utf8.encode_decodeLossy_iff`).
-/

namespace AssetDecl

namespace Utf8

variable {b : UInt8} {lead : Lead} {ch : Char}

/-! ## Lead bytes -/

theorem lead?_two : ∀ x < 0x20, 2 ≤ x →
    lead? (UInt8.ofNat (x + 0xc0)) = some ⟨0x80, 0xbf, 0⟩ := by
  intro x hx hx'
  interval_cases x <;> rfl

/-- The second byte keeps off overlong forms and surrogates. -/
theorem lead?_three : ∀ x < 0x10, lead? (UInt8.ofNat (x + 0xe0)) =
    some ⟨if x = 0 then 0xa0 else 0x80, if x = 0xd then 0x9f else 0xbf, 1⟩ := by
  intro x hx
  interval_cases x <;> rfl

/-- The second byte keeps off overlong forms and numbers past the last code point. -/
theorem lead?_four : ∀ x < 5, lead? (UInt8.ofNat (x + 0xf0)) =
    some ⟨if x = 0 then 0x90 else 0x80, if x = 4 then 0x8f else 0xbf, 2⟩ := by
  intro x hx
  interval_cases x <;> rfl

theorem not_lt_of_lead? (h : lead? b = some lead) : ¬b < 0x80 := by
  intro hb
  have hb : b.toNat < 0x80 := hb
  unfold lead? at h
  simp only [Bool.and_eq_true, decide_eq_true_eq, UInt8.le_iff_toNat_le, beq_iff_eq,
    ← UInt8.toNat_inj, UInt8.reduceToNat] at h
  split_ifs at h <;> omega

/-! ## Pieces -/

theorem piecesOnto_cons (done : List (Option Char)) (b : UInt8) (rest : List UInt8) :
    piecesOnto done (b :: rest) = piecesOnto ((piece b rest).1 :: done) (piece b rest).2 := by
  rw [piecesOnto]

theorem piecesOnto_append (done : List (Option Char)) (bytes : List UInt8) :
    piecesOnto done bytes = piecesOnto [] bytes ++ done := by
  match bytes with
  | [] => rw [piecesOnto, piecesOnto, List.nil_append]
  | b :: rest =>
    rw [piecesOnto_cons, piecesOnto_cons [], piecesOnto_append (_ :: done), piecesOnto_append [_],
      List.append_assoc, List.singleton_append]
termination_by bytes.length
decreasing_by all_goals exact Nat.lt_succ_of_le (length_piece b rest)

@[simp] theorem pieces_nil : pieces [] = [] := by
  rw [pieces, piecesOnto, List.reverse_nil]

theorem pieces_cons (b : UInt8) (rest : List UInt8) :
    pieces (b :: rest) = (piece b rest).1 :: pieces (piece b rest).2 := by
  rw [pieces, piecesOnto_cons, piecesOnto_append, List.reverse_append, List.reverse_singleton,
    List.singleton_append, pieces]

/-- A lead byte, a second byte in its range and the continuation bytes that are announced are one
piece. -/
theorem pieces_of_decodeOne (more rest : List UInt8) {n : ℕ}
    (hlead : lead? b = some lead) (hlow : lead.low.toNat ≤ n % 0x40 + 0x80)
    (hhigh : n % 0x40 + 0x80 ≤ lead.high.toNat) (hmore : more.length = lead.more)
    (hc : ∀ c ∈ more, isContinuation c = true)
    (hd : decodeOne (b :: UInt8.ofNat (n % 0x40 + 0x80) :: more) = some ch) :
    pieces (b :: UInt8.ofNat (n % 0x40 + 0x80) :: (more ++ rest)) = some ch :: pieces rest := by
  have hsecond : (UInt8.ofNat (n % 0x40 + 0x80)).toNat = n % 0x40 + 0x80 := by
    rw [UInt8.toNat_ofNat']
    omega
  have hrange : lead.low ≤ UInt8.ofNat (n % 0x40 + 0x80) ∧
      UInt8.ofNat (n % 0x40 + 0x80) ≤ lead.high := by
    rw [UInt8.le_iff_toNat_le, UInt8.le_iff_toNat_le, hsecond]
    exact ⟨hlow, hhigh⟩
  have hcut := splitContinuations_append more rest hc
  rw [hmore] at hcut
  have hpiece : piece b (UInt8.ofNat (n % 0x40 + 0x80) :: (more ++ rest)) = (some ch, rest) := by
    generalize UInt8.ofNat (n % 0x40 + 0x80) = second at *
    simp [piece, not_lt_of_lead? hlead, hlead, hrange, hcut, hmore, hd]
  rw [pieces_cons, hpiece]

/-- An encoded character is one piece. -/
theorem pieces_utf8EncodeChar_append (ch : Char) (rest : List UInt8) :
    pieces (String.utf8EncodeChar ch ++ rest) = some ch :: pieces rest := by
  have hvalid : ch.val.toNat < 0xd800 ∨ 0xdfff < ch.val.toNat ∧ ch.val.toNat < 0x110000 := ch.valid
  have hdecode := decodeOne_utf8EncodeChar ch
  revert hdecode
  fun_cases String.utf8EncodeChar ch with
  | case1 v h =>
    intro hdecode
    have hlt : (UInt8.ofNat v).toNat < 0x80 := by
      rw [UInt8.toNat_ofNat']
      omega
    have hlt : UInt8.ofNat v < 0x80 := hlt
    rw [List.singleton_append, pieces_cons, piece, if_pos hlt, hdecode]
  | case2 v h1 h2 =>
    have hlead := lead?_two (v / 64 % 0x20) (by omega) (by omega)
    refine pieces_of_decodeOne [] rest hlead ?_ ?_ rfl (by simp)
    · show 0x80 ≤ _
      omega
    · show _ ≤ 0xbf
      omega
  | case3 v h1 h2 h3 =>
    have hlead := lead?_three (v / 4096 % 0x10) (by omega)
    refine pieces_of_decodeOne [_] rest hlead ?_ ?_ rfl ?_
    · dsimp only
      split
      · show 0xa0 ≤ _
        omega
      · show 0x80 ≤ _
        omega
    · dsimp only
      split
      · show _ ≤ 0x9f
        omega
      · show _ ≤ 0xbf
        omega
    · simp only [List.forall_mem_singleton, isContinuation_mod]
  | case4 v h1 h2 h3 =>
    have hlead := lead?_four (v / 262144 % 0x08) (by omega)
    refine pieces_of_decodeOne [_, _] rest hlead ?_ ?_ rfl ?_
    · dsimp only
      split
      · show 0x90 ≤ _
        omega
      · show 0x80 ≤ _
        omega
    · dsimp only
      split
      · show _ ≤ 0x8f
        omega
      · show _ ≤ 0xbf
        omega
    · simp only [List.forall_mem_cons, isContinuation_mod, List.not_mem_nil, false_imp_iff,
        implies_true, and_self]

/-! ## Texts -/

theorem pieces_encode (text : String) : pieces (encode text) = text.toList.map some := by
  rw [encode_eq]
  induction text.toList with
  | nil => exact pieces_nil
  | cons ch chars ih =>
    rw [List.flatMap_cons, pieces_utf8EncodeChar_append, ih, List.map_cons]

theorem decodeLossy_encode (text : String) : decodeLossy (encode text) = text := by
  rw [decodeLossy, pieces_encode, List.map_map]
  show String.ofList (text.toList.map id) = text
  rw [List.map_id, String.ofList_toList]

/-- Decoding bytes and encoding them again changes them unless they encode a text. -/
theorem encode_decodeLossy_iff {bytes : List UInt8} :
    encode (decodeLossy bytes) = bytes ↔ ∃ text, encode text = bytes := by
  constructor
  · exact fun h => ⟨_, h⟩
  · rintro ⟨text, rfl⟩
    rw [decodeLossy_encode]

end Utf8

end AssetDecl
