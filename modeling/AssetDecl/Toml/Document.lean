import AssetDecl.Toml.Scalar

/-!
# TOML documents

A document is read line by line into a tree of tables. Each table remembers how it came about, since
a header may fill in a table that only other headers mention, and a dotted key may extend only what
no header names.
-/

namespace AssetDecl.Toml

/-! ## Tables under construction -/

inductive Node where
  | value (v : Value)
  /-- A table; `implied` if no header names it, `dotted` if dotted keys made it. -/
  | table (implied dotted : Bool) (entries : List (String × Node))
  /-- The tables of one name under double brackets. -/
  | tables (elements : List Node)

/-- Replaces the value of a key, or adds the key at the end. -/
def setEntry (key : String) (node : Node) : List (String × Node) → List (String × Node)
  | [] => [(key, node)]
  | (k, n) :: rest => if k = key then (k, node) :: rest else (k, n) :: setEntry key node rest

namespace Node

/-- Changes the table at the end of a path. Tables on the way are made as needed, of several tables
under one name the last one is meant, and dotted keys pass only through implied tables. -/
def within (dotted : Bool) (change : Node → Option Node) : List String → Node → Option Node
  | [], node => change node
  | key :: path, .table implied wasDotted entries => do
    let child ← match entries.lookup key with
      | none => within dotted change path (.table true dotted [])
      | some (.value _) => none
      | some (.tables elements) =>
        match elements.getLast? with
        | none => none
        | some last => do
          let last ← within dotted change path last
          some (.tables (elements.dropLast ++ [last]))
      | some (.table childImplied childDotted children) =>
        if dotted && !childImplied then none
        else within dotted change path (.table childImplied childDotted children)
    some (.table implied wasDotted (setEntry key child entries))
  | _, _ => none

/-- Adds a value under a new key. The table that a dotted key leads to is one that no header
names. -/
def addValue (dotted : Bool) (key : String) (v : Value) : Node → Option Node
  | .table implied wasDotted entries =>
    if dotted && !implied || (entries.lookup key).isSome then none
    else some (.table implied wasDotted (entries ++ [(key, .value v)]))
  | _ => none

/-- Sets a key, given by its parts, in a table. -/
def setKey (parts : List String) (v : Value) (node : Node) : Option Node := do
  let last ← parts.getLast?
  let path := parts.dropLast
  within true (addValue (!path.isEmpty) last v) path node

/-- Makes the table of a header. -/
def addTable (key : String) : Node → Option Node
  | .table implied dotted entries =>
    match entries.lookup key with
    | none => some (.table implied dotted (entries ++ [(key, .table false false [])]))
    | some (.table true false children) =>
      some (.table implied dotted (setEntry key (.table false false children) entries))
    | some _ => none
  | _ => none

/-- Makes another table of a header in double brackets. -/
def addElement (key : String) : Node → Option Node
  | .table implied dotted entries =>
    match entries.lookup key with
    | none => some (.table implied dotted (entries ++ [(key, .tables [.table false false []])]))
    | some (.tables elements) =>
      some (.table implied dotted
        (setEntry key (.tables (elements ++ [.table false false []])) entries))
    | some _ => none
  | _ => none

mutual

/-- The value of a finished table. -/
def toValue : Node → Value
  | .value v => v
  | .table _ _ entries => .table (entriesToValue entries)
  | .tables elements => .array (elementsToValue elements)

def entriesToValue : List (String × Node) → List (String × Value)
  | [] => []
  | (key, node) :: rest => (key, node.toValue) :: entriesToValue rest

def elementsToValue : List Node → List Value
  | [] => []
  | node :: rest => node.toValue :: elementsToValue rest

end

end Node

/-! ## Values -/

/-- The items of an array past its opening bracket, at most `fuel` of them. -/
def arrayItems (item : Parse Value) : Nat → Parse (List Value)
  | 0, _ => none
  | fuel + 1, cs => do
    match ← skipGap cs with
    | ']' :: rest => some ([], rest)
    | rest =>
      let (first, rest) ← item rest
      match ← skipGap rest with
      | ']' :: rest => some ([first], rest)
      | ',' :: rest =>
        let (others, rest) ← arrayItems item fuel rest
        some (first :: others, rest)
      | _ => none

/-- The entries of a table in braces past the opening one, at most `fuel` of them. -/
def braceEntries (item : Parse Value) : Nat → Node → Parse Node
  | 0, _, _ => none
  | fuel + 1, node, cs => do
    match ← skipGap cs with
    | '}' :: rest => some (node, rest)
    | rest =>
      let (parts, rest) ← key rest
      match ← skipGap rest with
      | '=' :: rest =>
        let (v, rest) ← item (← skipGap rest)
        let node ← node.setKey parts v
        match ← skipGap rest with
        | '}' :: rest => some (node, rest)
        | ',' :: rest => braceEntries item fuel node rest
        | _ => none
      | _ => none

/-- A value with at most `depth` brackets and braces around each other. -/
def valueOfDepth : Nat → Parse Value
  | 0, cs => scalarValue cs
  | depth + 1, cs =>
    match cs with
    | '[' :: rest =>
      (arrayItems (valueOfDepth depth) (rest.length + 1) rest).map fun (items, rest) =>
        (.array items, rest)
    | '{' :: rest =>
      (braceEntries (valueOfDepth depth) (rest.length + 1) (.table false false []) rest).map
        fun (node, rest) => (node.toValue, rest)
    | _ => scalarValue cs

/-- A value. Brackets and braces nest up to eighty deep. -/
def value : Parse Value :=
  valueOfDepth 80

/-! ## Lines -/

/-- A document read so far. -/
structure Draft where
  root : Node := .table false false []
  /-- The header that the next keys belong to. -/
  header : List String := []

namespace Draft

def addKey (d : Draft) (parts : List String) (v : Value) : Option Draft := do
  let root ← d.root.within false (Node.setKey parts v) d.header
  some { d with root }

/-- Adds a header by what it does to the table in front of its last part. -/
def addHeader (d : Draft) (parts : List String) (add : String → Node → Option Node) :
    Option Draft := do
  let last ← parts.getLast?
  let root ← d.root.within false (add last) parts.dropLast
  some ⟨root, parts⟩

end Draft

/-- One line that is not blank. -/
def line (d : Draft) : Parse Draft
  | '[' :: '[' :: rest => do
    let (parts, rest) ← key (skipSpaces rest)
    match rest with
    | ']' :: ']' :: rest => some (← d.addHeader parts Node.addElement, rest)
    | _ => none
  | '[' :: rest => do
    let (parts, rest) ← key (skipSpaces rest)
    match rest with
    | ']' :: rest => some (← d.addHeader parts Node.addTable, rest)
    | _ => none
  | cs => do
    let (parts, rest) ← key cs
    match rest with
    | '=' :: rest =>
      let (v, rest) ← value (skipSpaces rest)
      some (← d.addKey parts v, rest)
    | _ => none

/-- At most `fuel` lines. -/
def lines : Nat → Draft → List Char → Option Draft
  | 0, _, _ => none
  | fuel + 1, d, cs => do
    match ← skipGap cs with
    | [] => some d
    | rest =>
      let (d, rest) ← line d rest
      lines fuel d (← endOfLine rest)

/-- The entries of a document, none when it is not well formed. A mark of byte order in front of it
does not count. -/
def parse? (text : String) : Option (List (String × Value)) := do
  let cs := match text.toList with
    | '\uFEFF' :: rest => rest
    | cs => cs
  let d ← lines (cs.length + 1) {} cs
  match d.root with
  | .table _ _ entries => some (Node.entriesToValue entries)
  | _ => none

end AssetDecl.Toml
