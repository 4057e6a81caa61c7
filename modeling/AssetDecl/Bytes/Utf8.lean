/-!
# UTF-8

Bytes are cut into pieces: a piece is one encoded character, or a maximal start of one that goes
wrong. Lossy decoding writes one replacement character for each wrong piece; strict decoding
refuses a text that has any.
-/

namespace AssetDecl.Utf8

/-- Stands for bytes that encode no character. -/
def replacement : Char := '\uFFFD'

/-- A byte that may follow a lead byte. -/
def isContinuation (b : UInt8) : Bool :=
  b &&& 0xc0 == 0x80

/-- The character whose encoding is exactly these bytes. The lead byte is taken to announce their
number; overlong forms, surrogates and numbers past the last code point are refused. -/
def decodeOne : List UInt8 → Option Char
  | [b0] => ofCode 0 b0.toNat
  | [b0, b1] => ofCode 0x80 (b0.toNat % 0x20 * 0x40 + b1.toNat % 0x40)
  | [b0, b1, b2] =>
    ofCode 0x800 (b0.toNat % 0x10 * 0x1000 + b1.toNat % 0x40 * 0x40 + b2.toNat % 0x40)
  | [b0, b1, b2, b3] =>
    ofCode 0x10000 (b0.toNat % 0x08 * 0x40000 + b1.toNat % 0x40 * 0x1000 +
      b2.toNat % 0x40 * 0x40 + b3.toNat % 0x40)
  | _ => none
where
  /-- The code point, when it is one and not below the least that needs so many bytes. -/
  ofCode (least code : Nat) : Option Char :=
    if h : least ≤ code ∧ code.isValidChar then some (Char.ofNatAux code h.2) else none

/-- What may follow a lead byte: the range of the second byte and the number of bytes after it. -/
structure Lead where
  low : UInt8
  high : UInt8
  more : Nat

/-- The lead bytes of two, three and four bytes. The range of the second byte leaves out overlong
forms, surrogates and numbers past the last code point. -/
def lead? (b : UInt8) : Option Lead :=
  if 0xc2 ≤ b && b ≤ 0xdf then some ⟨0x80, 0xbf, 0⟩
  else if b == 0xe0 then some ⟨0xa0, 0xbf, 1⟩
  else if b == 0xed then some ⟨0x80, 0x9f, 1⟩
  else if 0xe1 ≤ b && b ≤ 0xef then some ⟨0x80, 0xbf, 1⟩
  else if b == 0xf0 then some ⟨0x90, 0xbf, 2⟩
  else if 0xf1 ≤ b && b ≤ 0xf3 then some ⟨0x80, 0xbf, 2⟩
  else if b == 0xf4 then some ⟨0x80, 0x8f, 2⟩
  else none

/-- Splits off up to `n` continuation bytes. -/
def splitContinuations : Nat → List UInt8 → List UInt8 × List UInt8
  | 0, bytes => ([], bytes)
  | _ + 1, [] => ([], [])
  | n + 1, b :: rest =>
    if isContinuation b then
      let (taken, left) := splitContinuations n rest
      (b :: taken, left)
    else ([], b :: rest)

theorem length_splitContinuations (n : Nat) (bytes : List UInt8) :
    (splitContinuations n bytes).2.length ≤ bytes.length := by
  induction n generalizing bytes with
  | zero => simp [splitContinuations]
  | succ n ih =>
    cases bytes with
    | nil => simp [splitContinuations]
    | cons b rest =>
      have := ih rest
      simp only [splitContinuations]
      split
      · simp only [List.length_cons]
        omega
      · simp

/-- The piece with the lead byte `b`: its character, or none for a wrong piece, and what follows. -/
def piece (b : UInt8) (rest : List UInt8) : Option Char × List UInt8 :=
  if b < 0x80 then (decodeOne [b], rest)
  else match lead? b with
    | none => (none, rest)
    | some lead =>
      match rest with
      | [] => (none, [])
      | second :: others =>
        if lead.low ≤ second && second ≤ lead.high then
          let cut := splitContinuations lead.more others
          if cut.1.length = lead.more then (decodeOne (b :: second :: cut.1), cut.2)
          else (none, cut.2)
        else (none, second :: others)

theorem length_piece (b : UInt8) (rest : List UInt8) : (piece b rest).2.length ≤ rest.length := by
  unfold piece
  split
  · simp
  · split
    · simp
    · rename_i lead _
      split
      · simp
      · rename_i second others
        have := length_splitContinuations lead.more others
        split
        · simp only [List.length_cons]
          split <;> simp only <;> omega
        · simp

/-- The pieces, behind those in `done`, in reverse. -/
def piecesOnto (done : List (Option Char)) : List UInt8 → List (Option Char)
  | [] => done
  | b :: rest => piecesOnto ((piece b rest).1 :: done) (piece b rest).2
termination_by bytes => bytes.length
decreasing_by
  have := length_piece b rest
  simp
  omega

/-- The bytes cut into characters and wrong pieces. -/
def pieces (bytes : List UInt8) : List (Option Char) :=
  (piecesOnto [] bytes).reverse

/-- Every wrong piece becomes one replacement character. -/
def decodeLossy (bytes : List UInt8) : String :=
  String.ofList ((pieces bytes).map (·.getD replacement))

/-- The text, when no piece is wrong. -/
def decode? (bytes : List UInt8) : Option String :=
  ((pieces bytes).mapM id).map String.ofList

/-- Whether the bytes encode a text. -/
def isValid (bytes : List UInt8) : Bool :=
  (pieces bytes).all Option.isSome

def encode (text : String) : List UInt8 :=
  text.toUTF8.toList

end AssetDecl.Utf8
