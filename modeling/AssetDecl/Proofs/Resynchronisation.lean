import AssetDecl.Proofs.LossyDecoding
import AssetDecl.Proofs.StreamReading
import Mathlib.Data.List.Destutter

/-!
# Two decoders and where they meet

A byte reader takes the continuation bytes that a lead byte announces and looks at them afterwards;
lossy decoding looks at every byte. What is no character they cut into different numbers of pieces.
But what the reader takes in one go and refuses, lossy decoding cuts into wrong pieces only, the
last of which ends where the reader stops (`Utf8.readOne_cases`). So they come to the same
characters, but for how many replacement characters stand in a row (`Utf8.collapse_rest`).
-/

namespace AssetDecl

namespace Utf8

variable {b : UInt8} {ch : Char} {rest more : List UInt8}

/-! ## Runs of replacement characters -/

/-- Every run of replacement characters shrinks to one of them. -/
def collapse (chars : List Char) : List Char :=
  chars.destutter fun ch next => ¬(ch = replacement ∧ next = replacement)

theorem collapse_cons (ch : Char) (chars : List Char) :
    collapse (ch :: chars) =
      if ch = replacement ∧ chars.head? = some replacement then collapse chars
      else ch :: collapse chars := by
  unfold collapse
  obtain _ | ⟨next, chars⟩ := chars
  · simp
  simp only [List.destutter_cons', List.destutter'_cons, List.head?_cons, Option.some_inj,
    ite_not]
  split
  · rename_i h
    rw [h.1, h.2]
  · rfl

theorem head?_collapse (chars : List Char) : (collapse chars).head? = chars.head? := by
  induction chars with
  | nil => rfl
  | cons ch chars ih =>
    rw [collapse_cons]
    split
    · rename_i h
      rw [ih, h.2, List.head?_cons, h.1]
    · rfl

theorem collapse_cons_congr {chars chars' : List Char} (h : collapse chars = collapse chars')
    (ch : Char) : collapse (ch :: chars) = collapse (ch :: chars') := by
  rw [collapse_cons, collapse_cons, ← head?_collapse chars, ← head?_collapse chars', h]

theorem collapse_replicate_append (n : ℕ) (chars : List Char) :
    collapse (List.replicate (n + 1) replacement ++ chars) = collapse (replacement :: chars) := by
  induction n with
  | zero => rfl
  | succ n ih =>
    rw [List.replicate_succ, List.cons_append, collapse_cons, if_pos ⟨rfl, rfl⟩, ih]

/-! ## Continuation bytes -/

theorem isContinuation_ofNat_iff : ∀ x < 0x100,
    (isContinuation (UInt8.ofNat x) = true ↔ 0x80 ≤ x ∧ x < 0xc0) := by
  decide +kernel

theorem isContinuation_iff : isContinuation b = true ↔ 0x80 ≤ b.toNat ∧ b.toNat < 0xc0 := by
  have h := isContinuation_ofNat_iff b.toNat b.toNat_lt
  rwa [UInt8.ofNat_toNat] at h

theorem append_splitContinuations (n : ℕ) (bytes : List UInt8) :
    (splitContinuations n bytes).1 ++ (splitContinuations n bytes).2 = bytes := by
  fun_induction splitContinuations n bytes <;> simp_all

theorem isContinuation_of_mem_split (n : ℕ) (bytes : List UInt8) :
    ∀ c ∈ (splitContinuations n bytes).1, isContinuation c = true := by
  fun_induction splitContinuations n bytes <;> simp_all

/-- A continuation byte that nothing announces is a wrong piece. -/
theorem piece_continuation (hb : isContinuation b = true) (rest : List UInt8) :
    piece b rest = (none, rest) := by
  rw [isContinuation_iff] at hb
  have hsmall : ¬b < 0x80 := by
    rw [UInt8.lt_iff_toNat_lt]
    exact Nat.not_lt.2 hb.1
  have hlead : lead? b = none := by
    unfold lead?
    simp only [Bool.and_eq_true, decide_eq_true_eq, UInt8.le_iff_toNat_le, beq_iff_eq,
      ← UInt8.toNat_inj, UInt8.reduceToNat]
    split_ifs <;> first | rfl | omega
  rw [piece, if_neg hsmall, hlead]

theorem pieces_continuations_append (hmore : ∀ c ∈ more, isContinuation c = true)
    (rest : List UInt8) :
    pieces (more ++ rest) = List.replicate more.length none ++ pieces rest := by
  induction more with
  | nil => rfl
  | cons c more ih =>
    obtain ⟨hc, hmore⟩ := List.forall_mem_cons.1 hmore
    rw [List.cons_append, pieces_cons, piece_continuation hc, ih hmore, List.length_cons,
      List.replicate_succ, List.cons_append]

/-! ## Lead bytes -/

theorem width?_cases {width : ℕ} (h : ByteReader.width? b = some width) :
    width = 1 ∧ b.toNat < 0x80 ∨ width = 2 ∧ 0xc2 ≤ b.toNat ∧ b.toNat ≤ 0xdf ∨
      width = 3 ∧ 0xe0 ≤ b.toNat ∧ b.toNat ≤ 0xef ∨
        width = 4 ∧ 0xf0 ≤ b.toNat ∧ b.toNat ≤ 0xf4 := by
  unfold ByteReader.width? at h
  simp only [Bool.and_eq_true, decide_eq_true_eq, UInt8.le_iff_toNat_le, UInt8.lt_iff_toNat_lt,
    UInt8.reduceToNat] at h
  split_ifs at h <;> simp_all

theorem lead?_eq_none (h : ByteReader.width? b = none) : ¬b < 0x80 ∧ lead? b = none := by
  unfold ByteReader.width? at h
  unfold lead?
  simp only [Bool.and_eq_true, decide_eq_true_eq, UInt8.le_iff_toNat_le, UInt8.lt_iff_toNat_lt,
    beq_iff_eq, ← UInt8.toNat_inj, UInt8.reduceToNat] at h ⊢
  split_ifs at h
  refine ⟨by omega, ?_⟩
  split_ifs <;> first | rfl | omega

/-- A lead byte that announces continuation bytes narrows the range of the first of them. -/
theorem exists_lead {n : ℕ} (h : ByteReader.width? b = some (n + 2)) :
    ¬b < 0x80 ∧ ∃ lead, lead? b = some lead ∧ lead.more = n ∧ 0x80 ≤ lead.low.toNat ∧
      lead.high.toNat ≤ 0xbf := by
  have hwidth := width?_cases h
  unfold lead?
  simp only [Bool.and_eq_true, decide_eq_true_eq, UInt8.le_iff_toNat_le, UInt8.lt_iff_toNat_lt,
    beq_iff_eq, ← UInt8.toNat_inj, UInt8.reduceToNat]
  refine ⟨by omega, ?_⟩
  split_ifs
  all_goals first | omega | refine ⟨_, rfl, ?_, by decide, by decide⟩; dsimp only; omega

/-! ## Encoded characters -/

theorem ofCode_eq_some {least code : ℕ} (h : decodeOne.ofCode least code = some ch) :
    least ≤ code ∧ ch.val.toNat = code := by
  rw [decodeOne.ofCode] at h
  by_cases hcode : least ≤ code ∧ code.isValidChar
  · rw [dif_pos hcode] at h
    obtain rfl := Option.some.inj h
    exact ⟨hcode.1, rfl⟩
  · rw [dif_neg hcode] at h
    cases h

/-- What a lead byte and the continuation bytes that it announces decode to is encoded by them. -/
theorem utf8EncodeChar_of_decodeOne (hw : ByteReader.width? b = some (more.length + 1))
    (hc : ∀ c ∈ more, isContinuation c = true) (hd : decodeOne (b :: more) = some ch) :
    String.utf8EncodeChar ch = b :: more := by
  have hwidth := width?_cases hw
  simp only [isContinuation_iff] at hc
  unfold String.utf8EncodeChar
  match more with
  | [] =>
    obtain ⟨-, hcode⟩ := ofCode_eq_some hd
    simp only [hcode, List.length_nil] at hwidth ⊢
    rw [if_pos (by omega), UInt8.ofNat_toNat]
  | [b1] =>
    obtain ⟨hleast, hcode⟩ := ofCode_eq_some hd
    simp only [List.forall_mem_cons] at hc
    simp only [hcode, List.length_cons, List.length_nil] at hwidth ⊢
    rw [if_neg (by omega), if_pos (by omega)]
    simp only [List.cons.injEq, ← UInt8.toNat_inj, UInt8.toNat_ofNat', and_true]
    omega
  | [b1, b2] =>
    obtain ⟨hleast, hcode⟩ := ofCode_eq_some hd
    simp only [List.forall_mem_cons] at hc
    simp only [hcode, List.length_cons, List.length_nil] at hwidth ⊢
    rw [if_neg (by omega), if_neg (by omega), if_pos (by omega)]
    simp only [List.cons.injEq, ← UInt8.toNat_inj, UInt8.toNat_ofNat', and_true]
    omega
  | [b1, b2, b3] =>
    obtain ⟨hleast, hcode⟩ := ofCode_eq_some hd
    simp only [List.forall_mem_cons] at hc
    simp only [hcode, List.length_cons, List.length_nil] at hwidth ⊢
    rw [if_neg (by omega), if_neg (by omega), if_neg (by omega)]
    simp only [List.cons.injEq, ← UInt8.toNat_inj, UInt8.toNat_ofNat', and_true]
    omega
  | _ :: _ :: _ :: _ :: _ => cases hd

theorem exists_decodeOne_singleton (h : ByteReader.width? b = some 1) :
    ∃ ch, decodeOne [b] = some ch := by
  have hwidth := width?_cases h
  have hvalid : 0 ≤ b.toNat ∧ b.toNat.isValidChar := ⟨Nat.zero_le _, .inl (by omega)⟩
  exact ⟨_, dif_pos hvalid⟩

/-! ## Where the decoders meet -/

/-- The piece that a lead byte of several bytes starts ends inside what the reader takes, and it is
a character only if it ends there. -/
theorem piece_of_width? {n : ℕ} (h : ByteReader.width? b = some (n + 2)) (rest : List UInt8) :
    (∃ left, (∀ c ∈ left, isContinuation c = true) ∧
      (piece b rest).2 = left ++ (splitContinuations (n + 1) rest).2) ∧
    ∀ ch, (piece b rest).1 = some ch → (splitContinuations (n + 1) rest).1.length = n + 1 ∧
      decodeOne (b :: (splitContinuations (n + 1) rest).1) = some ch := by
  obtain ⟨hb, lead, hlead, rfl, hlow, hhigh⟩ := exists_lead h
  rw [piece, if_neg hb, hlead]
  obtain _ | ⟨second, others⟩ := rest
  · exact ⟨⟨[], by simp, rfl⟩, by simp⟩
  dsimp only
  split
  · rename_i hrange
    simp only [Bool.and_eq_true, decide_eq_true_eq, UInt8.le_iff_toNat_le] at hrange
    have hsecond : isContinuation second = true := isContinuation_iff.2 (by omega)
    rw [splitContinuations, if_pos hsecond]
    dsimp only
    split
    · rename_i hlength
      exact ⟨⟨[], by simp, rfl⟩, fun ch hch => ⟨congrArg (· + 1) hlength, hch⟩⟩
    · exact ⟨⟨[], by simp, rfl⟩, by simp⟩
  · exact ⟨⟨_, isContinuation_of_mem_split _ _, (append_splitContinuations _ _).symm⟩, by simp⟩

theorem readOne_of_decodeOne {n : ℕ} (hw : ByteReader.width? b = some (n + 1))
    (hlength : (splitContinuations n rest).1.length = n)
    (hd : decodeOne (b :: (splitContinuations n rest).1) = some ch) :
    b :: rest = String.utf8EncodeChar (readOne b rest).1 ++ (readOne b rest).2 := by
  have hone : readOne b rest = (ch, (splitContinuations n rest).2) := by
    simp [readOne, hw, hlength, hd]
  have hencode := utf8EncodeChar_of_decodeOne (hlength.symm ▸ hw)
    (isContinuation_of_mem_split _ _) hd
  rw [hone, hencode, List.cons_append, append_splitContinuations]

theorem readOne_of_forall_not {n : ℕ} (hw : ByteReader.width? b = some (n + 1))
    (hnot : ∀ ch, (splitContinuations n rest).1.length = n →
      decodeOne (b :: (splitContinuations n rest).1) ≠ some ch) :
    readOne b rest = (replacement, (splitContinuations n rest).2) := by
  simp only [readOne, hw, Nat.add_sub_cancel]
  split
  · rename_i hlength
    rw [Option.eq_none_iff_forall_ne_some.2 fun ch => hnot ch hlength, Option.getD_none]
  · rfl

/-- Either the reader takes one encoded character, or it refuses what it takes, and then lossy
decoding cuts that into wrong pieces. -/
theorem readOne_cases (b : UInt8) (rest : List UInt8) :
    b :: rest = String.utf8EncodeChar (readOne b rest).1 ++ (readOne b rest).2 ∨
      (readOne b rest).1 = replacement ∧ ∃ n, pieces (b :: rest) =
        List.replicate (n + 1) none ++ pieces (readOne b rest).2 := by
  match hw : ByteReader.width? b with
  | none =>
    obtain ⟨hb, hlead⟩ := lead?_eq_none hw
    right
    rw [readOne, hw, pieces_cons, piece, if_neg hb, hlead]
    exact ⟨rfl, 0, rfl⟩
  | some 0 => exact absurd (width?_cases hw) (by omega)
  | some 1 =>
    obtain ⟨ch, hch⟩ := exists_decodeOne_singleton hw
    exact .inl (readOne_of_decodeOne (n := 0) hw rfl hch)
  | some (n + 2) =>
    obtain ⟨⟨left, hleft, hbehind⟩, hright⟩ := piece_of_width? hw rest
    by_cases hdecoded : ∃ ch, (splitContinuations (n + 1) rest).1.length = n + 1 ∧
        decodeOne (b :: (splitContinuations (n + 1) rest).1) = some ch
    · obtain ⟨ch, hlength, hd⟩ := hdecoded
      exact .inl (readOne_of_decodeOne hw hlength hd)
    · have hone := readOne_of_forall_not hw fun ch hlength hd => hdecoded ⟨ch, hlength, hd⟩
      have hwrong : (piece b rest).1 = none :=
        Option.eq_none_iff_forall_ne_some.2 fun ch hch => hdecoded ⟨ch, hright ch hch⟩
      right
      refine ⟨by rw [hone], left.length, ?_⟩
      rw [pieces_cons, hwrong, hbehind, pieces_continuations_append hleft, hone,
        List.replicate_succ, List.cons_append]

/-- The reader and lossy decoding make the same characters of some bytes, but for the lengths of
the runs of replacement characters. -/
theorem collapse_readChars (bytes : List UInt8) :
    collapse (readChars bytes) = collapse ((pieces bytes).map (·.getD replacement)) := by
  match bytes with
  | [] => rw [readChars_nil, pieces_nil, List.map_nil]
  | b :: rest =>
    have ih := collapse_readChars (readOne b rest).2
    rw [readChars_cons, collapse_cons_congr ih]
    rcases readOne_cases b rest with htaken | ⟨hrefused, n, hpieces⟩
    · conv_rhs => rw [htaken, pieces_utf8EncodeChar_append]
      rfl
    · rw [hrefused, hpieces, List.map_append, List.map_replicate]
      exact (collapse_replicate_append n _).symm
termination_by bytes.length
decreasing_by exact Nat.lt_succ_of_le (length_readOne_le b rest)

/-- What an overlong form starts with is refused in one go or byte by byte. -/
example : readChars [0xe0, 0x80, 0x41] = [replacement, 'A'] ∧
    pieces [0xe0, 0x80, 0x41] = [none, none, some 'A'] :=
  ⟨by cbv, by cbv⟩

/-- Bytes without wrong pieces are read as the characters that they encode. -/
theorem flatMap_readChars (bytes : List UInt8) (h : isValid bytes = true) :
    (readChars bytes).flatMap String.utf8EncodeChar = bytes := by
  match bytes with
  | [] => rw [readChars_nil, List.flatMap_nil]
  | b :: rest =>
    rcases readOne_cases b rest with htaken | ⟨-, n, hpieces⟩
    · have hrest : isValid (readOne b rest).2 = true := by
        rw [isValid, htaken, pieces_utf8EncodeChar_append, List.all_cons] at h
        exact (Bool.and_eq_true_iff.1 h).2
      rw [readChars_cons, List.flatMap_cons, flatMap_readChars _ hrest, ← htaken]
    · rw [isValid, hpieces, List.replicate_succ] at h
      simp at h
termination_by bytes.length
decreasing_by exact Nat.lt_succ_of_le (length_readOne_le b rest)

theorem isValid_encode (text : String) : isValid (encode text) = true := by
  rw [isValid, pieces_encode, List.all_map]
  simp

/-- A stream delivers the characters that lossy decoding makes of its bytes, but for the lengths of
the runs of replacement characters. They encode to its bytes again exactly if those are valid, and
valid are the bytes that encode a text. -/
theorem collapse_rest (s : ByteStream) :
    collapse (Cursor.rest (ByteCursor.ofStream s)) = collapse (decodeLossy s.bytes).toList ∧
      (encode (String.ofList (Cursor.rest (ByteCursor.ofStream s))) = s.bytes ↔
        isValid s.bytes = true) ∧
      (isValid s.bytes = true ↔ ∃ text, encode text = s.bytes) := by
  rw [Cursor.rest_of_shows (ByteCursor.shows_ofStream s)]
  have hvalid : isValid s.bytes = true →
      encode (String.ofList (readChars s.bytes)) = s.bytes := fun h => by
    rw [encode_eq, String.toList_ofList, flatMap_readChars _ h]
  refine ⟨?_, ⟨?_, hvalid⟩, fun h => ⟨_, hvalid h⟩, ?_⟩
  · rw [collapse_readChars, decodeLossy, String.toList_ofList]
  · intro h
    rw [← h]
    exact isValid_encode _
  · rintro ⟨text, htext⟩
    rw [← htext]
    exact isValid_encode text

end Utf8

end AssetDecl
