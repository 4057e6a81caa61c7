import AssetDecl.Toml.Value

/-!
# TOML scalars and keys

Strings in their four forms, scalars without quotes, and the keys of tables.
-/

namespace AssetDecl.Toml

/-! ## Strings -/

def hexValue? (c : Char) : Option Nat :=
  if c.isDigit then some (c.toNat - '0'.toNat)
  else if 'a' ≤ c && c ≤ 'f' then some (c.toNat - 'a'.toNat + 10)
  else if 'A' ≤ c && c ≤ 'F' then some (c.toNat - 'A'.toNat + 10)
  else none

/-- The character with a code point written in hexadecimal digits. -/
def codePoint? (digits : List Char) : Option Char := do
  let code ← digits.foldlM (fun n c => (hexValue? c).map (n * 16 + ·)) 0
  if code.isValidChar then some (Char.ofNat code) else none

/-- The escapes of one letter. -/
def simpleEscape? : Char → Option Char
  | 'b' => some '\x08'
  | 't' => some '\t'
  | 'n' => some '\n'
  | 'f' => some '\x0c'
  | 'r' => some '\r'
  | 'e' => some '\x1b'
  | '"' => some '"'
  | '\\' => some '\\'
  | _ => none

/-- Puts a character in front of what a string goes on with. -/
def consTo (c : Char) (tail : Option (List Char × List Char)) : Option (List Char × List Char) :=
  tail.map fun (cs, rest) => (c :: cs, rest)

/-- A basic string past its opening quote. -/
def basicString : Parse (List Char)
  | [] => none
  | '"' :: rest => some ([], rest)
  | '\\' :: 'x' :: a :: b :: rest => do consTo (← codePoint? [a, b]) (basicString rest)
  | '\\' :: 'u' :: a :: b :: c :: d :: rest => do
    consTo (← codePoint? [a, b, c, d]) (basicString rest)
  | '\\' :: 'U' :: a :: b :: c :: d :: e :: f :: g :: h :: rest => do
    consTo (← codePoint? [a, b, c, d, e, f, g, h]) (basicString rest)
  | '\\' :: c :: rest => do consTo (← simpleEscape? c) (basicString rest)
  | c :: rest => if isPlain c && c != '\\' then consTo c (basicString rest) else none

/-- A literal string past its opening quote. -/
def literalString : Parse (List Char)
  | [] => none
  | '\'' :: rest => some ([], rest)
  | c :: rest => if isPlain c then consTo c (literalString rest) else none

/-- Whether a backslash stands at the end of its line. -/
def endsLine (cs : List Char) : Bool :=
  (lineBreak? (skipSpaces cs)).isSome

/-- A basic string of several lines past its opening quotes. Up to two quotes may stand before the
closing ones. After a backslash at the end of a line blanks are skipped. -/
def longBasicString (skipping : Bool) : Parse (List Char)
  | [] => none
  | '"' :: '"' :: '"' :: '"' :: '"' :: rest => some (['"', '"'], rest)
  | '"' :: '"' :: '"' :: '"' :: rest => some (['"'], rest)
  | '"' :: '"' :: '"' :: rest => some ([], rest)
  | '\r' :: '\n' :: rest =>
    if skipping then longBasicString true rest
    else consTo '\r' (consTo '\n' (longBasicString false rest))
  | '\n' :: rest =>
    if skipping then longBasicString true rest else consTo '\n' (longBasicString false rest)
  | '\\' :: 'x' :: a :: b :: rest => do consTo (← codePoint? [a, b]) (longBasicString false rest)
  | '\\' :: 'u' :: a :: b :: c :: d :: rest => do
    consTo (← codePoint? [a, b, c, d]) (longBasicString false rest)
  | '\\' :: 'U' :: a :: b :: c :: d :: e :: f :: g :: h :: rest => do
    consTo (← codePoint? [a, b, c, d, e, f, g, h]) (longBasicString false rest)
  | '\\' :: c :: rest =>
    if endsLine (c :: rest) then longBasicString true (c :: rest)
    else do consTo (← simpleEscape? c) (longBasicString false rest)
  | c :: rest =>
    if skipping && isSpace c then longBasicString true rest
    else if isPlain c && c != '\\' then consTo c (longBasicString false rest)
    else none

/-- A literal string of several lines past its opening quotes. -/
def longLiteralString : Parse (List Char)
  | [] => none
  | '\'' :: '\'' :: '\'' :: '\'' :: '\'' :: rest => some (['\'', '\''], rest)
  | '\'' :: '\'' :: '\'' :: '\'' :: rest => some (['\''], rest)
  | '\'' :: '\'' :: '\'' :: rest => some ([], rest)
  | '\r' :: '\n' :: rest => consTo '\r' (consTo '\n' (longLiteralString rest))
  | c :: rest =>
    if c = '\n' || isPlain c then consTo c (longLiteralString rest) else none

/-- A line break right after the opening quotes does not count. -/
def dropFirstBreak (cs : List Char) : List Char :=
  (lineBreak? cs).getD cs

/-- A string in any form. -/
def stringValue : Parse (List Char)
  | '"' :: '"' :: '"' :: rest => longBasicString false (dropFirstBreak rest)
  | '"' :: rest => basicString rest
  | '\'' :: '\'' :: '\'' :: rest => longLiteralString (dropFirstBreak rest)
  | '\'' :: rest => literalString rest
  | _ => none

/-! ## Numbers -/

/-- The digits of a number without the underscores, each of which stands between two digits. -/
def digits? (isDigit : Char → Bool) : List Char → Option (List Char)
  | [] => none
  | [c] => if isDigit c then some [c] else none
  | c :: '_' :: rest => if isDigit c then (digits? isDigit rest).map (c :: ·) else none
  | c :: rest => if isDigit c then (digits? isDigit rest).map (c :: ·) else none

def digitsValue (base : Nat) (digits : List Char) : Nat :=
  digits.foldl (fun n c => n * base + (hexValue? c).getD 0) 0

/-- Decimal digits that do not start with a needless zero. -/
def decimal? (cs : List Char) : Option (List Char) := do
  let digits ← digits? Char.isDigit cs
  match digits with
  | '0' :: _ :: _ => none
  | _ => some digits

/-- A number in a base that its second character tells. -/
def based? : List Char → Option Nat
  | '0' :: 'x' :: rest => (digits? (fun c => (hexValue? c).isSome) rest).map (digitsValue 16)
  | '0' :: 'o' :: rest => (digits? (fun c => '0' ≤ c && c ≤ '7') rest).map (digitsValue 8)
  | '0' :: 'b' :: rest => (digits? (fun c => c == '0' || c == '1') rest).map (digitsValue 2)
  | _ => none

/-- The sign of a number and what follows it. -/
def signed : List Char → Bool × List Char
  | '-' :: rest => (true, rest)
  | '+' :: rest => (false, rest)
  | cs => (false, cs)

/-- An integer. One of up to sixteen bytes is in range. -/
def integer? (cs : List Char) : Option Value := do
  let n ← match based? cs with
    | some n => some (n : Int)
    | none =>
      let (negative, rest) := signed cs
      (decimal? rest).map fun digits =>
        let n : Int := digitsValue 10 digits
        if negative then -n else n
  if -0x80000000000000000000000000000000 ≤ n ∧ n < 0x100000000000000000000000000000000 then
    some (.integer n)
  else some .outOfRange

/-- The exponent of a number past its letter. -/
def exponent? (cs : List Char) : Option Int :=
  let (negative, rest) := signed cs
  (digits? Char.isDigit rest).map fun digits =>
    let n : Int := digitsValue 10 digits
    if negative then -n else n

/-- The digits of a fraction past its point, and the exponent behind them. -/
def fraction? (cs : List Char) : Option (List Char × Int) :=
  let isMark := fun c => c == 'e' || c == 'E'
  match digits? Char.isDigit (cs.takeWhile (!isMark ·)), cs.dropWhile (!isMark ·) with
  | none, _ => none
  | some digits, [] => some (digits, 0)
  | some digits, _ :: rest => (exponent? rest).map (digits, ·)

/-- A number with a fraction or an exponent: its digits, and the power of ten of the last one. -/
def scientific? (cs : List Char) : Option (List Char × Int) :=
  let whole := cs.takeWhile fun c => c.isDigit || c == '_'
  match decimal? whole, cs.drop whole.length with
  | some digits, '.' :: rest =>
    (fraction? rest).map fun (more, power) => (digits ++ more, power - more.length)
  | some digits, 'e' :: rest | some digits, 'E' :: rest => (exponent? rest).map (digits, ·)
  | _, _ => none

/-- The least number that is too large for a float of eight bytes: half a step past the largest one,
which is `2 ^ 1024 - 2 ^ 971`. -/
def floatLimit : Nat :=
  Nat.pow 2 1024 - Nat.pow 2 970

/-- Whether digits times a power of ten are too large for a float. -/
def isTooLarge (digits : List Char) (power : Int) : Bool :=
  let digits := digits.dropWhile (· == '0')
  let size := digits.length + power
  if digits.isEmpty || size ≤ 308 then false
  else if 310 ≤ size then true
  else if 0 ≤ power then floatLimit ≤ digitsValue 10 digits * Nat.pow 10 power.toNat
  else floatLimit * Nat.pow 10 (-power).toNat ≤ digitsValue 10 digits

/-- A number with a fraction or an exponent, an infinity or no number at all. -/
def float? (cs : List Char) : Option Value :=
  let body := (signed cs).2
  if body = ['i', 'n', 'f'] || body = ['n', 'a', 'n'] then some (.float (String.ofList cs))
  else
    (scientific? body).map fun (digits, power) =>
      if isTooLarge digits power then .outOfRange else .float (String.ofList cs)

/-! ## Scalars without quotes -/

/-- Characters of an unquoted scalar. -/
def isScalarChar (c : Char) : Bool :=
  c.isAlphanum || c == '_' || c == '+' || c == '-' || c == '.' || c == ':'

/-- The text of an unquoted scalar. A space may part a date from a time. -/
def scalarText (cs : List Char) : List Char × List Char :=
  let first := cs.takeWhile isScalarChar
  match Date.read? first, cs.dropWhile isScalarChar with
  | some (_, []), ' ' :: d :: rest =>
    if d.isDigit then
      (first ++ ' ' :: (d :: rest).takeWhile isScalarChar, (d :: rest).dropWhile isScalarChar)
    else (first, ' ' :: d :: rest)
  | _, rest => (first, rest)

/-- The meaning of an unquoted scalar. -/
def scalar? (cs : List Char) : Option Value :=
  if cs = ['t', 'r', 'u', 'e'] then some (.boolean true)
  else if cs = ['f', 'a', 'l', 's', 'e'] then some (.boolean false)
  else integer? cs <|> float? cs <|> (Datetime.read? cs).map .datetime

/-- Any value without brackets or braces. -/
def scalarValue : Parse Value := fun cs =>
  match cs with
  | '"' :: _ | '\'' :: _ =>
    (stringValue cs).map fun (text, rest) => (.string (String.ofList text), rest)
  | _ =>
    let (text, rest) := scalarText cs
    (scalar? text).map (·, rest)

/-! ## Keys -/

def isKeyChar (c : Char) : Bool :=
  c.isAlphanum || c == '_' || c == '-'

/-- One part of a key: bare, or a string on one line. -/
def keyPart : Parse String
  | '"' :: rest => (basicString rest).map fun (text, rest) => (String.ofList text, rest)
  | '\'' :: rest => (literalString rest).map fun (text, rest) => (String.ofList text, rest)
  | cs =>
    if (cs.takeWhile isKeyChar).isEmpty then none
    else some (String.ofList (cs.takeWhile isKeyChar), cs.dropWhile isKeyChar)

/-- A key of at most `fuel` parts with dots between them. -/
def keyParts : Nat → Parse (List String)
  | 0, _ => none
  | fuel + 1, cs => do
    let (part, rest) ← keyPart cs
    match skipSpaces rest with
    | '.' :: rest =>
      let (parts, rest) ← keyParts fuel (skipSpaces rest)
      some (part :: parts, rest)
    | rest => some ([part], rest)

/-- A key of up to eighty parts and what follows it and the spaces behind it. -/
def key : Parse (List String) :=
  keyParts 80

end AssetDecl.Toml
