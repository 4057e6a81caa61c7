import AssetDecl.Cursor.Bytes
import Mathlib.Tactic

/-!
# Decoding bytes one character at a time

`readOne` and `readChars` read characters off a list of bytes the way a byte reader reads them off a
stream. What they make of the encoding of a text is the text (`readChars_encode`).
-/

namespace AssetDecl

namespace Utf8

/-! ## Characters of a list of bytes -/

/-- The character that the lead byte `b` starts in front of `rest`, and the bytes behind it. -/
def readOne (b : UInt8) (rest : List UInt8) : Char × List UInt8 :=
  match ByteReader.width? b with
  | none => (replacement, rest)
  | some width =>
    let cut := splitContinuations (width - 1) rest
    if cut.1.length = width - 1 then ((decodeOne (b :: cut.1)).getD replacement, cut.2)
    else (replacement, cut.2)

theorem length_readOne_le (b : UInt8) (rest : List UInt8) :
    (readOne b rest).2.length ≤ rest.length := by
  unfold readOne
  split
  · exact le_rfl
  · rename_i width _
    have := length_splitContinuations (width - 1) rest
    simp only
    split <;> exact this

/-- The characters that a byte reader makes of some bytes. -/
def readChars : List UInt8 → List Char
  | [] => []
  | b :: rest => (readOne b rest).1 :: readChars (readOne b rest).2
termination_by bytes => bytes.length
decreasing_by exact Nat.lt_succ_of_le (length_readOne_le b rest)

@[simp] theorem readChars_nil : readChars [] = [] := by
  rw [readChars]

theorem readChars_cons (b : UInt8) (rest : List UInt8) :
    readChars (b :: rest) = (readOne b rest).1 :: readChars (readOne b rest).2 := by
  rw [readChars]

/-- Continuation bytes that are announced are split off. -/
theorem splitContinuations_append (more : List UInt8) (rest : List UInt8)
    (hc : ∀ c ∈ more, isContinuation c = true) :
    splitContinuations more.length (more ++ rest) = (more, rest) := by
  induction more with
  | nil => rfl
  | cons c more ih =>
    have hmore := ih fun c' hc' => hc c' (List.mem_cons_of_mem _ hc')
    simp [splitContinuations, hc c List.mem_cons_self, hmore]

/-- A lead byte with all the continuation bytes it announces is the character they encode. -/
theorem readChars_of_decodeOne {b : UInt8} (more : List UInt8) {rest : List UInt8} {ch : Char}
    (hw : ByteReader.width? b = some (more.length + 1)) (hc : ∀ c ∈ more, isContinuation c = true)
    (hd : decodeOne (b :: more) = some ch) :
    readChars (b :: (more ++ rest)) = ch :: readChars rest := by
  have hone : readOne b (more ++ rest) = (ch, rest) := by
    simp [readOne, hw, splitContinuations_append more rest hc, hd]
  rw [readChars_cons, hone]

/-! ## Encoded characters -/

theorem isContinuation_of_lt : ∀ x < 0x40, isContinuation (UInt8.ofNat (x + 0x80)) = true := by
  decide

theorem isContinuation_mod (n : ℕ) : isContinuation (UInt8.ofNat (n % 0x40 + 0x80)) = true :=
  isContinuation_of_lt _ (Nat.mod_lt n (by decide))

theorem width?_one : ∀ x < 0x80, ByteReader.width? (UInt8.ofNat x) = some 1 := by
  decide

theorem width?_two : ∀ x < 0x20, 2 ≤ x → ByteReader.width? (UInt8.ofNat (x + 0xc0)) = some 2 := by
  decide

theorem width?_three : ∀ x < 0x10, ByteReader.width? (UInt8.ofNat (x + 0xe0)) = some 3 := by
  decide

theorem width?_four : ∀ x < 5, ByteReader.width? (UInt8.ofNat (x + 0xf0)) = some 4 := by
  decide

theorem ofCode_val {least : ℕ} {ch : Char} (h : least ≤ ch.val.toNat) :
    decodeOne.ofCode least ch.val.toNat = some ch := by
  have hvalid : least ≤ ch.val.toNat ∧ ch.val.toNat.isValidChar := ⟨h, ch.valid⟩
  rw [decodeOne.ofCode, dif_pos hvalid]
  rfl

theorem decodeOne_utf8EncodeChar (ch : Char) :
    decodeOne (String.utf8EncodeChar ch) = some ch := by
  have hlt : ch.val.toNat < 0x110000 := by
    rcases ch.valid with h | h <;> omega
  fun_cases String.utf8EncodeChar ch with
  | case1 v h =>
    have hcode : (UInt8.ofNat v).toNat = v := by
      rw [UInt8.toNat_ofNat']
      omega
    rw [decodeOne, hcode]
    exact ofCode_val (by omega)
  | case2 v h1 h2 =>
    have hcode : (UInt8.ofNat (v / 64 % 0x20 + 0xc0)).toNat % 0x20 * 0x40 +
        (UInt8.ofNat (v % 0x40 + 0x80)).toNat % 0x40 = v := by
      simp only [UInt8.toNat_ofNat']
      omega
    rw [decodeOne, hcode]
    exact ofCode_val (by omega)
  | case3 v h1 h2 h3 =>
    have hcode : (UInt8.ofNat (v / 4096 % 0x10 + 0xe0)).toNat % 0x10 * 0x1000 +
        (UInt8.ofNat (v / 64 % 0x40 + 0x80)).toNat % 0x40 * 0x40 +
          (UInt8.ofNat (v % 0x40 + 0x80)).toNat % 0x40 = v := by
      simp only [UInt8.toNat_ofNat']
      omega
    rw [decodeOne, hcode]
    exact ofCode_val (by omega)
  | case4 v h1 h2 h3 =>
    have hcode : (UInt8.ofNat (v / 262144 % 0x08 + 0xf0)).toNat % 0x08 * 0x40000 +
        (UInt8.ofNat (v / 4096 % 0x40 + 0x80)).toNat % 0x40 * 0x1000 +
          (UInt8.ofNat (v / 64 % 0x40 + 0x80)).toNat % 0x40 * 0x40 +
            (UInt8.ofNat (v % 0x40 + 0x80)).toNat % 0x40 = v := by
      simp only [UInt8.toNat_ofNat']
      omega
    rw [decodeOne, hcode]
    exact ofCode_val (by omega)

theorem readChars_utf8EncodeChar_append (ch : Char) (rest : List UInt8) :
    readChars (String.utf8EncodeChar ch ++ rest) = ch :: readChars rest := by
  have hlt : ch.val.toNat < 0x110000 := by
    rcases ch.valid with h | h <;> omega
  have hdecode := decodeOne_utf8EncodeChar ch
  revert hdecode
  fun_cases String.utf8EncodeChar ch with
  | case1 v h => exact readChars_of_decodeOne [] (width?_one v (by omega)) (by simp)
  | case2 v h1 h2 =>
    refine readChars_of_decodeOne [_] (width?_two _ (by omega) (by omega)) ?_
    simp only [List.forall_mem_cons, isContinuation_mod, List.not_mem_nil, false_imp_iff,
      implies_true, and_self]
  | case3 v h1 h2 h3 =>
    refine readChars_of_decodeOne [_, _] (width?_three _ (by omega)) ?_
    simp only [List.forall_mem_cons, isContinuation_mod, List.not_mem_nil, false_imp_iff,
      implies_true, and_self]
  | case4 v h1 h2 h3 =>
    refine readChars_of_decodeOne [_, _, _] (width?_four _ (by omega)) ?_
    simp only [List.forall_mem_cons, isContinuation_mod, List.not_mem_nil, false_imp_iff,
      implies_true, and_self]

theorem byteArray_toList_loop (bytes : ByteArray) (i : ℕ) (seen : List UInt8) :
    ByteArray.toList.loop bytes i seen = seen.reverse ++ bytes.data.toList.drop i := by
  fun_induction ByteArray.toList.loop bytes i seen with
  | case1 i seen hi ih =>
    have hi' : i < bytes.data.toList.length := by simpa using hi
    rw [ih, List.drop_eq_getElem_cons hi']
    simp [ByteArray.get!, hi]
  | case2 i seen hi =>
    rw [List.drop_eq_nil_of_le (by simpa using hi), List.append_nil]

theorem encode_eq (text : String) : encode text = text.toList.flatMap String.utf8EncodeChar := by
  have hbytes : text.toUTF8 = (text.toList.flatMap String.utf8EncodeChar).toByteArray := by
    rw [String.toUTF8_eq_toByteArray]
    conv_lhs => rw [← String.ofList_toList (s := text)]
    rw [String.toByteArray_ofList, List.utf8Encode]
  rw [encode, hbytes, ByteArray.toList, byteArray_toList_loop, List.toList_data_toByteArray]
  rfl

/-- Reading gives an encoded text back. -/
theorem readChars_encode (text : String) : readChars (encode text) = text.toList := by
  rw [encode_eq]
  induction text.toList with
  | nil => exact readChars_nil
  | cons ch chars ih => rw [List.flatMap_cons, readChars_utf8EncodeChar_append, ih]

end Utf8

end AssetDecl
