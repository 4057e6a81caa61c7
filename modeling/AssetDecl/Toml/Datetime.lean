/-!
# TOML dates and times

A date, a time of day, or both, which may come with an offset. They are written in one form only:
parts are padded with zeros, and a fraction of a second has up to nine places with no needless zero.
-/

namespace AssetDecl.Toml

structure Date where
  year : Nat
  month : Nat
  day : Nat
  deriving DecidableEq, Repr

structure Time where
  hour : Nat
  minute : Nat
  second : Option Nat := none
  nanosecond : Option Nat := none
  deriving DecidableEq, Repr

inductive Offset where
  | utc
  /-- Minutes ahead of it. -/
  | minutes (n : Int)
  deriving DecidableEq, Repr

structure Datetime where
  date : Option Date := none
  time : Option Time := none
  offset : Option Offset := none
  deriving DecidableEq, Repr

/-! ## Reading -/

/-- A number of exactly the digits given. -/
def fixed? (cs : List Char) : Option Nat :=
  if cs.all Char.isDigit then some (cs.foldl (fun n c => n * 10 + (c.toNat - '0'.toNat)) 0)
  else none

def daysIn (year month : Nat) : Nat :=
  if month = 2 then
    if year % 4 = 0 ∧ (year % 100 ≠ 0 ∨ year % 400 = 0) then 29 else 28
  else if month = 4 || month = 6 || month = 9 || month = 11 then 30
  else 31

/-- The date at the front of a text and what follows it. -/
def Date.read? : List Char → Option (Date × List Char)
  | y1 :: y2 :: y3 :: y4 :: '-' :: m1 :: m2 :: '-' :: d1 :: d2 :: rest => do
    let year ← fixed? [y1, y2, y3, y4]
    let month ← fixed? [m1, m2]
    let day ← fixed? [d1, d2]
    if 1 ≤ month ∧ month ≤ 12 ∧ 1 ≤ day ∧ day ≤ daysIn year month then
      some (⟨year, month, day⟩, rest)
    else none
  | _ => none

/-- The fraction of a second at the front of a text, if there is one, and what follows it. Digits
past the ninth do not count. -/
def nanoseconds? : List Char → Option (Option Nat × List Char)
  | '.' :: rest =>
    let digits := rest.takeWhile Char.isDigit
    if digits.isEmpty then none
    else
      (fixed? ((digits ++ List.replicate 9 '0').take 9)).map fun n =>
        (some n, rest.dropWhile Char.isDigit)
  | rest => some (none, rest)

/-- The time of day at the front of a text and what follows it. The seconds may be left out. -/
def Time.read? : List Char → Option (Time × List Char)
  | h1 :: h2 :: ':' :: m1 :: m2 :: rest => do
    let hour ← fixed? [h1, h2]
    let minute ← fixed? [m1, m2]
    if hour ≤ 23 ∧ minute ≤ 59 then
      match rest with
      | ':' :: s1 :: s2 :: rest =>
        let second ← fixed? [s1, s2]
        let (nanosecond, rest) ← nanoseconds? rest
        if second ≤ 60 then some ({ hour, minute, second, nanosecond }, rest) else none
      | rest => some ({ hour, minute }, rest)
    else none
  | _ => none

/-- The offset that a text is, if it is not empty. -/
def Offset.read? : List Char → Option (Option Offset)
  | [] => some none
  | ['Z'] | ['z'] => some (some .utc)
  | [sign, h1, h2, ':', m1, m2] => do
    let hours ← fixed? [h1, h2]
    let minutes ← fixed? [m1, m2]
    if hours ≤ 23 ∧ minutes ≤ 59 then
      if sign = '+' then some (some (.minutes (hours * 60 + minutes)))
      else if sign = '-' then some (some (.minutes (-(hours * 60 + minutes))))
      else none
    else none
  | _ => none

/-- The meaning of a text. A letter T or a space stands between a date and a time, and only both
together have an offset. -/
def Datetime.read? (cs : List Char) : Option Datetime :=
  match Date.read? cs with
  | some (date, []) => some { date }
  | some (date, separator :: rest) => do
    let (time, rest) ← Time.read? rest
    let offset ← Offset.read? rest
    if separator = 'T' || separator = 't' || separator = ' ' then some { date, time, offset }
    else none
  | none =>
    match Time.read? cs with
    | some (time, []) => some { time }
    | _ => none

/-! ## Writing -/

/-- A number with zeros in front of it, so that it has a width. -/
def padded (width n : Nat) : List Char :=
  let digits := Nat.toDigits 10 n
  List.replicate (width - digits.length) '0' ++ digits

/-- Billionths as a fraction without needless zeros at the end. -/
def fractionDigits (nanosecond : Nat) : List Char :=
  match ((padded 9 nanosecond).reverse.dropWhile (· == '0')).reverse with
  | [] => ['0']
  | digits => digits

def Date.digits (d : Date) : List Char :=
  padded 4 d.year ++ '-' :: padded 2 d.month ++ '-' :: padded 2 d.day

def Time.digits (t : Time) : List Char :=
  padded 2 t.hour ++ ':' :: padded 2 t.minute ++
    (t.second.map fun n => ':' :: padded 2 n).getD [] ++
    (t.nanosecond.map fun n => '.' :: fractionDigits n).getD []

def Offset.digits : Offset → List Char
  | .utc => ['Z']
  | .minutes n =>
    (if n < 0 then '-' else '+') :: padded 2 (n.natAbs / 60) ++ ':' :: padded 2 (n.natAbs % 60)

def Datetime.text (d : Datetime) : String :=
  let date := (d.date.map Date.digits).getD []
  let time := (d.time.map Time.digits).getD []
  let mark := if d.date.isSome && d.time.isSome then ['T'] else []
  String.ofList (date ++ mark ++ time ++ (d.offset.map Offset.digits).getD [])

end AssetDecl.Toml
