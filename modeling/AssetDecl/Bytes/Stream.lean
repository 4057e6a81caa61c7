/-!
# Byte streams

A byte stream is delivered in fills of one or more bytes. Between them a delivery may be
interrupted, which means only that it has to be tried again, and after the last byte the stream
ends or goes on failing.
-/

namespace AssetDecl

/-- One answer of the source of a stream. -/
inductive Fill where
  /-- At least one byte. -/
  | bytes (first : UInt8) (rest : List UInt8)
  /-- Nothing yet; to be tried again. -/
  | interrupted
  deriving DecidableEq, Repr

/-- How a stream ends. -/
inductive Ending where
  | finished
  /-- Every look past the last byte fails for this reason. -/
  | failing (reason : String)
  deriving DecidableEq, Repr

structure ByteStream where
  fills : List Fill
  ending : Ending
  deriving DecidableEq, Repr

namespace ByteStream

/-- All bytes of some fills. -/
def bytesOf : List Fill → List UInt8
  | [] => []
  | .bytes first rest :: fills => first :: rest ++ bytesOf fills
  | .interrupted :: fills => bytesOf fills

/-- The bytes still to be delivered. -/
def bytes (s : ByteStream) : List UInt8 :=
  bytesOf s.fills

/-- The first byte of some fills. -/
def firstOf : List Fill → Option UInt8
  | [] => none
  | .bytes first _ :: _ => some first
  | .interrupted :: fills => firstOf fills

/-- Fills without their first byte. -/
def dropOf : List Fill → List Fill
  | [] => []
  | .bytes _ [] :: fills => fills
  | .bytes _ (second :: rest) :: fills => .bytes second rest :: fills
  | .interrupted :: fills => dropOf fills

/-- The next byte, after as many tries as it takes. -/
def first (s : ByteStream) : Option UInt8 :=
  firstOf s.fills

/-- The stream past its next byte. -/
def drop (s : ByteStream) : ByteStream :=
  { s with fills := dropOf s.fills }

/-- Why a look past the last byte fails, if it does. -/
def failure (s : ByteStream) : Option String :=
  match s.ending with
  | .finished => none
  | .failing reason => some reason

theorem firstOf_eq_head? (fills : List Fill) : firstOf fills = (bytesOf fills).head? := by
  induction fills with
  | nil => rfl
  | cons fill fills ih => cases fill <;> simp [firstOf, bytesOf, ih]

theorem bytesOf_dropOf (fills : List Fill) : bytesOf (dropOf fills) = (bytesOf fills).tail := by
  fun_induction dropOf fills <;> simp_all [bytesOf]

@[simp] theorem first_eq_head? (s : ByteStream) : s.first = s.bytes.head? :=
  firstOf_eq_head? s.fills

@[simp] theorem bytes_drop (s : ByteStream) : s.drop.bytes = s.bytes.tail :=
  bytesOf_dropOf s.fills

/-- The bytes in fills that end where a multiple of `size` is reached, `position` bytes having gone
before. -/
def chunks (size position : Nat) : List UInt8 → List Fill
  | [] => []
  | b :: rest =>
    match chunks size (position + 1) rest with
    | .bytes second others :: fills =>
      if (position + 1) % size = 0 then .bytes b [] :: .bytes second others :: fills
      else .bytes b (second :: others) :: fills
    | fills => .bytes b [] :: fills

/-- A whole file in one fill. -/
def ofBytes (content : List UInt8) : ByteStream :=
  match content with
  | [] => ⟨[], .finished⟩
  | first :: rest => ⟨[.bytes first rest], .finished⟩

/-- An interruption in front of every fill. -/
def interruptEach (fills : List Fill) : List Fill :=
  fills.flatMap fun fill => [.interrupted, fill]

/-- A stream that delivers `content` in fills of `size` bytes, interrupted before each of them if
`interrupted`, and that fails with `reason` at every look at byte number `failAt`. -/
def deliver (content : List UInt8) (size : Nat) (interrupted : Bool) (failAt : Option Nat)
    (reason : String) : ByteStream :=
  let cut := match failAt with
    | some n => if n ≤ content.length then some n else none
    | none => none
  let shown := match cut with
    | some n => content.take n
    | none => content
  let fills := chunks size 0 shown
  { fills := if interrupted then interruptEach fills ++ [.interrupted] else fills
    ending := if cut.isSome then .failing reason else .finished }

end ByteStream

end AssetDecl
