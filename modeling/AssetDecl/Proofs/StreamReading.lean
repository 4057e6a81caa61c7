import AssetDecl.Proofs.ByteDecoding
import AssetDecl.Proofs.LosslessTree

/-!
# Reading streams

A byte cursor shows `Utf8.readChars` of the bytes of its stream, whatever the fills and the
interruptions (`ByteCursor.shows_ofStream`), and once it has gone through them it holds the failure
that the stream ends with. So a stream is parsed as the text that its bytes are read as
(`SyntaxTree.readStream_eq`).
-/

namespace AssetDecl

/-- The failure that a stream with this ending runs into. -/
def Ending.failure : Ending → Option String
  | .finished => none
  | .failing reason => some reason

theorem ByteStream.failure_eq (s : ByteStream) : s.failure = s.ending.failure := by
  unfold ByteStream.failure Ending.failure
  cases s.ending <;> rfl

/-! ## Readers -/

namespace ByteReader

/-- The reader stands in front of these bytes, and the stream ends like this behind them. -/
structure At (r : ByteReader) (bytes : List UInt8) (ending : Ending) : Prop where
  bytes_eq : r.stream.bytes = bytes
  ending_eq : r.stream.ending = ending
  /-- A failure is met behind the last byte only. -/
  error_eq : r.error = none ∨ bytes = [] ∧ r.error = ending.failure

/-- The reader has looked past the last byte. -/
structure Spent (r : ByteReader) (ending : Ending) : Prop where
  at_end : r.At [] ending
  error_eq : r.error = ending.failure

variable {r : ByteReader} {b : UInt8} {bytes rest : List UInt8} {ending : Ending}

theorem At.look_cons (h : r.At (b :: rest) ending) : r.look = (some b, r) := by
  have herror : r.error = none := h.error_eq.resolve_right (by simp)
  have hfirst : r.stream.first = some b := by
    rw [ByteStream.first_eq_head?, h.bytes_eq]
    rfl
  rw [look, if_neg (by simp [herror]), hfirst]

theorem At.look_nil (h : r.At [] ending) : r.look.1 = none ∧ r.look.2.Spent ending := by
  have hfirst : r.stream.first = none := by
    rw [ByteStream.first_eq_head?, h.bytes_eq]
    rfl
  have hfailure : r.stream.failure = ending.failure := by
    rw [ByteStream.failure_eq, h.ending_eq]
  unfold look
  split
  · rename_i herror
    have hkept : r.error = ending.failure := by
      rcases h.error_eq with hnone | ⟨-, hkept⟩
      · simp [hnone] at herror
      · exact hkept
    exact ⟨rfl, h, hkept⟩
  · rw [hfirst]
    exact ⟨rfl, ⟨h.bytes_eq, h.ending_eq, .inr ⟨rfl, hfailure⟩⟩, hfailure⟩

theorem At.drop (h : r.At (b :: rest) ending) : r.drop.At rest ending where
  bytes_eq := by rw [ByteReader.drop, ByteStream.bytes_drop, h.bytes_eq, List.tail_cons]
  ending_eq := h.ending_eq
  error_eq := .inl (h.error_eq.resolve_right (by simp))

theorem At.takeContinuations (h : r.At bytes ending) (n : ℕ) :
    (takeContinuations n r).1 = (Utf8.splitContinuations n bytes).1 ∧
      (takeContinuations n r).2.At (Utf8.splitContinuations n bytes).2 ending := by
  induction n generalizing r bytes with
  | zero => exact ⟨rfl, h⟩
  | succ n ih =>
    obtain _ | ⟨b, rest⟩ := bytes
    · obtain ⟨hnone, hspent⟩ := h.look_nil
      unfold ByteReader.takeContinuations
      rcases hl : r.look with ⟨_ | b, r'⟩
      · rw [hl] at hspent
        exact ⟨rfl, hspent.at_end⟩
      · simp [hl] at hnone
    · rw [ByteReader.takeContinuations, h.look_cons, Utf8.splitContinuations]
      by_cases hb : Utf8.isContinuation b = true
      · obtain ⟨htaken, hat⟩ := ih h.drop
        simp only [if_pos hb]
        exact ⟨congrArg (b :: ·) htaken, hat⟩
      · rw [if_neg hb]
        simp only [if_neg hb]
        exact ⟨trivial, h⟩

theorem At.next_nil (h : r.At [] ending) : r.next.1 = none ∧ r.next.2.Spent ending := by
  obtain ⟨hnone, hspent⟩ := h.look_nil
  unfold next
  rcases hl : r.look with ⟨_ | b, r'⟩
  · rw [hl] at hspent
    exact ⟨rfl, hspent⟩
  · simp [hl] at hnone

theorem At.next_cons (h : r.At (b :: rest) ending) :
    r.next.1 = some (Utf8.readOne b rest).1 ∧ r.next.2.At (Utf8.readOne b rest).2 ending := by
  unfold next Utf8.readOne
  rw [h.look_cons]
  dsimp only
  cases width? b with
  | none => exact ⟨rfl, h.drop⟩
  | some width =>
    obtain ⟨htaken, hat⟩ := h.drop.takeContinuations (width - 1)
    simp only [htaken]
    split
    · exact ⟨rfl, hat⟩
    · exact ⟨rfl, hat⟩

end ByteReader

/-! ## Cursors over a stream -/

namespace ByteCursor

/-- The cursor stands in front of these characters, the first two of which it has read, and the
stream ends like this behind them. -/
structure At (c : ByteCursor) (chars : List Char) (ending : Ending) : Prop where
  current_eq : c.current = chars.head?
  next_eq : c.next = chars.tail.head?
  reader_at : ∃ bytes, c.reader.At bytes ending ∧ Utf8.readChars bytes = chars.tail.tail
  /-- It looks past the last byte for a next character. -/
  spent : chars.tail = [] → c.reader.Spent ending

variable {c : ByteCursor} {ch : Char} {rest chars : List Char} {ending : Ending}

/-- Reads the character behind the two that are held. -/
theorem next_of_readChars {r : ByteReader} {bytes : List UInt8} (h : r.At bytes ending) :
    r.next.1 = (Utf8.readChars bytes).head? ∧
      (∃ bytes', r.next.2.At bytes' ending ∧ Utf8.readChars bytes' = (Utf8.readChars bytes).tail) ∧
        (Utf8.readChars bytes = [] → r.next.2.Spent ending) := by
  obtain _ | ⟨b, rest⟩ := bytes
  · obtain ⟨hnone, hspent⟩ := h.next_nil
    rw [Utf8.readChars_nil]
    exact ⟨hnone, ⟨[], hspent.at_end, Utf8.readChars_nil⟩, fun _ => hspent⟩
  · obtain ⟨hsome, hat⟩ := h.next_cons
    rw [Utf8.readChars_cons]
    exact ⟨hsome, ⟨_, hat, rfl⟩, fun hnil => absurd hnil (List.cons_ne_nil _ _)⟩

theorem at_ofStream (s : ByteStream) : (ofStream s).At (Utf8.readChars s.bytes) s.ending := by
  have hstart : ({ stream := s } : ByteReader).At s.bytes s.ending := ⟨rfl, rfl, .inl rfl⟩
  obtain ⟨hfirst, ⟨bytes, hat, hbytes⟩, -⟩ := next_of_readChars hstart
  obtain ⟨hsecond, hreader, hspent⟩ := next_of_readChars hat
  rw [hbytes] at hsecond hreader hspent
  exact ⟨hfirst, hsecond, hreader, hspent⟩

theorem At.advance (h : c.At (ch :: rest) ending) : c.advance.At rest ending := by
  obtain ⟨bytes, hat, hbytes⟩ := h.reader_at
  have hcurrent : c.current = some ch := h.current_eq
  have hnext : c.next = rest.head? := h.next_eq
  obtain _ | ⟨ch', rest⟩ := rest
  · have hadvance : c.advance = { c with current := none } := by
      simp [ByteCursor.advance, hcurrent, hnext]
    rw [hadvance]
    exact ⟨rfl, hnext, ⟨bytes, hat, hbytes⟩, fun _ => h.spent rfl⟩
  · have hadvance : c.advance = ⟨c.reader.next.2, some ch', c.reader.next.1⟩ := by
      simp [ByteCursor.advance, hcurrent, hnext]
    obtain ⟨hread, hreader, hspent⟩ := next_of_readChars hat
    rw [hbytes] at hread hreader hspent
    rw [hadvance]
    exact ⟨rfl, hread, hreader, hspent⟩

theorem At.shows (h : c.At chars ending) : Cursor.Shows c chars := by
  induction chars generalizing c with
  | nil => exact .nil h.current_eq
  | cons ch rest ih => exact .cons h.current_eq h.next_eq (ih h.advance)

theorem At.advance_iterate (h : c.At chars ending) :
    (Cursor.advance^[chars.length] c).At [] ending := by
  induction chars generalizing c with
  | nil => exact h
  | cons ch rest ih => exact ih h.advance

theorem At.error_eq (h : c.At [] ending) : c.error = ending.failure :=
  (h.spent rfl).error_eq

theorem shows_ofStream (s : ByteStream) : Cursor.Shows (ofStream s) (Utf8.readChars s.bytes) :=
  (at_ofStream s).shows

end ByteCursor

/-! ## Parsing a stream -/

theorem Cursor.drainOnto_of_shows {γ : Type} [Cursor γ] {c : γ} {chars : List Char}
    (h : Cursor.Shows c chars) (seen : List Char) :
    (Cursor.drainOnto c seen).1 = chars.reverse ++ seen := by
  induction h generalizing seen with
  | nil hc =>
    rw [drainOnto]
    split
    · rfl
    · simp_all
  | @cons c ch rest hc hp hr ih =>
    rw [drainOnto]
    split
    · simp_all
    · rename_i ch' hc'
      obtain rfl : ch' = ch := Option.some.inj (hc'.symm.trans hc)
      rw [ih, List.reverse_cons, List.append_assoc, List.singleton_append]

theorem Cursor.rest_of_shows {γ : Type} [Cursor γ] {c : γ} {chars : List Char}
    (h : Cursor.Shows c chars) : Cursor.rest c = chars := by
  show (drainOnto c []).1.reverse = chars
  rw [drainOnto_of_shows h, List.append_nil, List.reverse_reverse]

namespace SyntaxTree

/-- A stream is parsed as the text that its bytes are read as, unless it ends in a failure. -/
theorem readStream_eq (s : ByteStream) :
    readStream s =
      match s.ending.failure with
      | some reason => .error reason
      | none => .ok (read (String.ofList (Utf8.readChars s.bytes))) := by
  have herror := (ByteCursor.at_ofStream s).advance_iterate.error_eq
  rw [readStream, readFrom_of_shows (ByteCursor.shows_ofStream s), read_eq, String.toList_ofList]
  cases hfailure : s.ending.failure with
  | none =>
    rw [hfailure] at herror
    simp only [herror]
  | some reason =>
    rw [hfailure] at herror
    simp only [herror]

/-- However the bytes of a text are delivered, the stream is parsed as the text. What a cursor
delivers of a stream, and what the stream is parsed as, depend on its bytes and its ending alone,
whether or not the bytes encode a text. -/
theorem readStream_delivery :
    (∀ (text : String) (s : ByteStream), s.bytes = Utf8.encode text → s.ending = .finished →
      readStream s = .ok (read text)) ∧
    ∀ s s' : ByteStream, s.bytes = s'.bytes → s.ending = s'.ending →
      Cursor.rest (ByteCursor.ofStream s) = Cursor.rest (ByteCursor.ofStream s') ∧
        readStream s = readStream s' := by
  constructor
  · intro text s hbytes hending
    rw [readStream_eq, hbytes, hending, Utf8.readChars_encode, String.ofList_toList]
    rfl
  · intro s s' hbytes hending
    have hrest := Cursor.rest_of_shows (ByteCursor.shows_ofStream s)
    have hrest' := Cursor.rest_of_shows (ByteCursor.shows_ofStream s')
    rw [hbytes] at hrest
    exact ⟨hrest.trans hrest'.symm, by rw [readStream_eq, readStream_eq, hbytes, hending]⟩

/-- The two bytes of `é` arrive in two fills, with an interruption between them, and those of a
broken sequence in one fill or in two. -/
theorem readStream_delivery_split :
    let s : ByteStream :=
      ⟨[.interrupted, .bytes 0x6e [0xc3], .interrupted, .bytes 0xa9 []], .finished⟩
    let joined : ByteStream := ⟨[.bytes 0xe2 [0x28]], .finished⟩
    let parted : ByteStream := ⟨[.bytes 0xe2 [], .interrupted, .bytes 0x28 []], .finished⟩
    (s.bytes = Utf8.encode "né" ∧ s.ending = .finished ∧ readStream s = .ok (read "né")) ∧
      joined.bytes = parted.bytes ∧ joined.ending = parted.ending ∧
        Cursor.rest (ByteCursor.ofStream joined) = Cursor.rest (ByteCursor.ofStream parted) ∧
          readStream joined = readStream parted := by
  intro s joined parted
  have hbytes : s.bytes = Utf8.encode "né" := by
    rw [Utf8.encode_eq]
    decide
  have hequal : joined.bytes = parted.bytes := by decide
  exact ⟨⟨hbytes, rfl, readStream_delivery.1 _ s hbytes rfl⟩, hequal, rfl,
    readStream_delivery.2 joined parted hequal rfl⟩

end SyntaxTree

end AssetDecl
