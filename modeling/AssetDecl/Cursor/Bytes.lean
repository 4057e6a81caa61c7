import AssetDecl.Bytes.Stream
import AssetDecl.Bytes.Utf8
import AssetDecl.Cursor

/-!
# Byte cursors

A cursor over a byte stream that decodes UTF-8 as it goes and holds the current character and the
next one. A malformed sequence decodes to the replacement character. The first failure ends the
characters and is kept until it is taken.
-/

namespace AssetDecl

/-- A byte stream and the failure that ended it, if there was one. -/
structure ByteReader where
  stream : ByteStream
  error : Option String := none

namespace ByteReader

/-- The next byte. A failure is kept, and while one is kept there are no bytes. -/
def look (r : ByteReader) : Option UInt8 × ByteReader :=
  if r.error.isSome then (none, r)
  else match r.stream.first with
    | some b => (some b, r)
    | none => (none, { r with error := r.stream.failure })

def drop (r : ByteReader) : ByteReader :=
  { r with stream := r.stream.drop }

/-- How many bytes the encoding of a character has that starts with `b`. -/
def width? (b : UInt8) : Option Nat :=
  if b < 0x80 then some 1
  else if 0xc2 ≤ b && b ≤ 0xdf then some 2
  else if 0xe0 ≤ b && b ≤ 0xef then some 3
  else if 0xf0 ≤ b && b ≤ 0xf4 then some 4
  else none

/-- Takes continuation bytes as long as there are any, at most `n`. -/
def takeContinuations : Nat → ByteReader → List UInt8 × ByteReader
  | 0, r => ([], r)
  | n + 1, r =>
    match r.look with
    | (some b, r) =>
      if Utf8.isContinuation b then
        let (taken, r) := takeContinuations n r.drop
        (b :: taken, r)
      else ([], r)
    | (none, r) => ([], r)

/-- Reads one character. A lead byte takes the continuation bytes it announces as far as they are
there, and what they make together is checked afterwards. -/
def next (r : ByteReader) : Option Char × ByteReader :=
  match r.look with
  | (none, r) => (none, r)
  | (some b, r) =>
    match width? b with
    | none => (some Utf8.replacement, r.drop)
    | some width =>
      let (taken, r) := takeContinuations (width - 1) r.drop
      if taken.length = width - 1 then
        (some ((Utf8.decodeOne (b :: taken)).getD Utf8.replacement), r)
      else (some Utf8.replacement, r)

/-- Bytes still to be delivered. -/
def size (r : ByteReader) : Nat :=
  r.stream.bytes.length

theorem size_look (r : ByteReader) : r.look.2.size = r.size := by
  unfold look size
  split
  · rfl
  · split <;> rfl

theorem size_drop_le (r : ByteReader) : r.drop.size ≤ r.size := by
  simp [drop, size]

theorem size_drop_lt {r : ByteReader} {b : UInt8} (h : r.look.1 = some b) :
    r.look.2.drop.size < r.look.2.size := by
  revert h
  unfold look
  split
  · simp
  · split
    · rename_i hb
      intro _
      rw [ByteStream.first_eq_head?] at hb
      have : r.stream.bytes ≠ [] := by intro hn; simp [hn] at hb
      have := List.length_pos_iff.2 this
      simp [drop, size]
      omega
    · simp

theorem size_takeContinuations (n : Nat) (r : ByteReader) :
    (takeContinuations n r).2.size ≤ r.size := by
  induction n generalizing r with
  | zero => simp [takeContinuations]
  | succ n ih =>
    have hl := size_look r
    unfold takeContinuations
    rcases hr : r.look with ⟨_ | b, r'⟩ <;> simp only [hr] at hl ⊢
    · omega
    · split
      · have := ih r'.drop
        have := size_drop_le r'
        simp only
        omega
      · simp only
        omega

/-- A character read is a byte read. -/
theorem size_next_lt {r : ByteReader} {ch : Char} (h : r.next.1 = some ch) :
    r.next.2.size < r.size := by
  have hl := size_look r
  have hd := @size_drop_lt r
  revert h
  unfold next
  rcases hr : r.look with ⟨_ | b, r'⟩ <;> simp only [hr] at hl hd ⊢
  · simp
  · have hd := hd rfl
    split
    · intro _
      simp only
      omega
    · rename_i width _
      have := size_takeContinuations (width - 1) r'.drop
      split
      · intro _
        simp only
        omega
      · intro _
        simp only
        omega

theorem size_next_le (r : ByteReader) : r.next.2.size ≤ r.size := by
  rcases h : r.next.1 with _ | ch
  · have hl := size_look r
    revert h
    unfold next
    rcases hr : r.look with ⟨_ | b, r'⟩ <;> simp only [hr] at hl ⊢
    · intro _
      omega
    · split
      · simp
      · split <;> simp
  · exact Nat.le_of_lt (size_next_lt h)

end ByteReader

/-- A decoding view of a byte stream, two characters ahead of it. -/
structure ByteCursor where
  reader : ByteReader
  current : Option Char
  next : Option Char

namespace ByteCursor

def ofStream (stream : ByteStream) : ByteCursor :=
  let (first, reader) := ByteReader.next { stream }
  let (second, reader) := reader.next
  ⟨reader, first, second⟩

/-- The next character is read only while there is a current one. -/
def advance (c : ByteCursor) : ByteCursor :=
  match c.current, c.next with
  | none, _ => c
  | some _, none => { c with current := none }
  | some _, some ch => ⟨c.reader.next.2, some ch, c.reader.next.1⟩

/-- The failure that ended the stream. -/
def error (c : ByteCursor) : Option String :=
  c.reader.error

/-- Hands out the failure once; a later read runs into it again. -/
def releaseError (c : ByteCursor) : Option String × ByteCursor :=
  (c.reader.error, { c with reader := { c.reader with error := none } })

/-- The characters held and the bytes behind them. -/
def remaining (c : ByteCursor) : Nat :=
  c.current.toList.length + c.next.toList.length + c.reader.size

theorem remaining_advance (c : ByteCursor) (h : c.current ≠ none) :
    c.advance.remaining < c.remaining := by
  obtain ⟨reader, _ | ch, next⟩ := c
  · simp at h
  · obtain _ | ch' := next
    · simp [advance, remaining]
    · have hle := ByteReader.size_next_le reader
      rcases hn : reader.next.1 with _ | ch''
      · simp [advance, remaining, hn]
        omega
      · have := ByteReader.size_next_lt hn
        simp [advance, remaining, hn]
        omega

instance : Cursor ByteCursor where
  current := current
  peek := next
  advance := advance
  remaining := remaining
  remaining_advance := remaining_advance

end ByteCursor

end AssetDecl
