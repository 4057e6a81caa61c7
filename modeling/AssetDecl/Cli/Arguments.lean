import AssetDecl.Path

/-!
# Arguments

The words of the command line: options of the program and of a command, the command itself and its
operands. Words are read one after the other; an option that takes a value takes it from its own
word or from the next one.
-/

namespace AssetDecl.Cli

inductive Format where
  | text
  | json
  deriving DecidableEq, Repr

inductive Command where
  | list (declType : Option String) (format : Format)
  | showOne (declType name : String)
  | check
  deriving DecidableEq, Repr

structure Arguments where
  command : Option Command := none
  path : Option Path := none
  verbose : Bool := false
  noColour : Bool := false
  deriving DecidableEq, Repr

/-- Why no command is carried out. -/
inductive Stop where
  | help
  | version
  /-- The words are not understood. -/
  | misused
  deriving DecidableEq, Repr

/-- The part of the command line that a word belongs to. -/
inductive Level where
  | top
  | list
  | showOne
  | check
  /-- Words behind the command for help, which name what help is wanted on. -/
  | help
  deriving DecidableEq, Repr

inductive Opt where
  | path
  | verbose
  | noColour
  | declType
  | format
  | help
  | version
  deriving DecidableEq, Repr

namespace Opt

/-- Options of the program may also come behind the command, all but that for the version. -/
def allowed (level : Level) : Opt → Bool
  | declType | format => level = .list
  | version => level = .top
  | _ => true

def ofLong? : String → Option Opt
  | "path" => some path
  | "verbose" => some verbose
  | "no-color" => some noColour
  | "type" => some declType
  | "format" => some format
  | "help" => some help
  | "version" => some version
  | _ => none

def ofShort? : Char → Option Opt
  | 'p' => some path
  | 'v' => some verbose
  | 't' => some declType
  | 'h' => some help
  | 'V' => some version
  | _ => none

def takesValue : Opt → Bool
  | path | declType | format => true
  | _ => false

/-- Whether an option may have a value. -/
def accepts (value : String) : Opt → Bool
  | path => value ≠ ""
  | format => value = "text" || value = "json"
  | _ => true

end Opt

/-- The command lines read so far. -/
structure Reading where
  level : Level := .top
  /-- The option whose value comes next. -/
  awaiting : Option Opt := none
  /-- Whether two dashes have been read, after which every word is an operand. -/
  plain : Bool := false
  /-- Options in order with the level where they stand; flags have an empty value. -/
  options : List (Level × Opt × String) := []
  operands : List String := []

namespace Reading

def has (r : Reading) (o : Opt) : Bool :=
  r.options.any fun (level, other, _) => level = r.level && other = o

/-- Records an option, which may stand once on each level. -/
def give (r : Reading) (o : Opt) (value : String) : Except Stop Reading :=
  if o = .help then .error .help
  else if o = .version then .error .version
  else if r.has o || !o.accepts value then .error .misused
  else .ok { r with awaiting := none, options := r.options ++ [(r.level, o, value)] }

/-- Reads an option with the value in its own word, if there is one. -/
def giveAttached (r : Reading) (o : Opt) (value : Option String) : Except Stop Reading :=
  match o.takesValue, value with
  | true, some value => r.give o value
  | true, none => .ok { r with awaiting := some o }
  | false, some _ => .error .misused
  | false, none => r.give o ""

/-- Reads a word behind two dashes. -/
def readLong (r : Reading) (body : List Char) : Except Stop Reading :=
  let name := String.ofList (body.takeWhile (· ≠ '='))
  let value := match body.dropWhile (· ≠ '=') with
    | [] => none
    | _ :: rest => some (String.ofList rest)
  match (Opt.ofLong? name).filter (Opt.allowed r.level) with
  | none => .error .misused
  | some o => r.giveAttached o value

/-- Reads letters behind one dash. An equals sign in front of a value does not count. -/
def readShort : Reading → List Char → Except Stop Reading
  | r, [] => .ok r
  | r, c :: rest =>
    match (Opt.ofShort? c).filter (Opt.allowed r.level) with
    | none => .error .misused
    | some o =>
      if o.takesValue then
        match rest with
        | [] => r.giveAttached o none
        | '=' :: value => r.giveAttached o (some (String.ofList value))
        | value => r.giveAttached o (some (String.ofList value))
      else do (← r.give o "").readShort rest

/-- Reads an operand or, on the top level, the command. -/
def readWord (r : Reading) (word : String) : Except Stop Reading :=
  match r.level with
  | .top =>
    if r.plain then .error .misused
    else match word with
      | "list" => .ok { r with level := .list }
      | "show" => .ok { r with level := .showOne }
      | "check" => .ok { r with level := .check }
      | "help" => .ok { r with level := .help }
      | _ => .error .misused
  | .showOne =>
    if r.operands.length < 2 then .ok { r with operands := r.operands ++ [word] }
    else .error .misused
  | .help => .ok { r with operands := r.operands ++ [word] }
  | _ => .error .misused

/-- Reads one word. -/
def read (r : Reading) (word : String) : Except Stop Reading :=
  if r.plain || r.level = .help then r.readWord word
  else match r.awaiting, word.toList with
    | none, ['-', '-'] => .ok { r with plain := true }
    | none, '-' :: '-' :: body => r.readLong body
    | none, '-' :: c :: rest => r.readShort (c :: rest)
    | none, _ => r.readWord word
    | some _, '-' :: _ :: _ => .error .misused
    | some o, _ => r.give o word

/-- The value given last to an option. -/
def value? (r : Reading) (o : Opt) : Option String :=
  (r.options.reverse.find? fun (_, other, _) => other = o).map fun (_, _, value) => value

/-- Whether a word names a command. -/
def isCommand (word : String) : Bool :=
  ["list", "show", "check", "help"].contains word

def command? (r : Reading) : Except Stop (Option Command) :=
  match r.level, r.operands with
  | .top, _ => .ok none
  | .list, _ =>
    let format := if r.value? .format = some "json" then Format.json else .text
    .ok (some (.list (r.value? .declType) format))
  | .showOne, [declType, name] => .ok (some (.showOne declType name))
  | .showOne, _ => .error .misused
  | .check, _ => .ok (some .check)
  | .help, [] => .error .help
  | .help, [topic] => .error (if isCommand topic then .help else .misused)
  | .help, _ => .error .misused

/-- What the words mean once all are read. -/
def finish (r : Reading) : Except Stop Arguments :=
  if r.awaiting.isSome then .error .misused
  else r.command?.map fun command =>
    { command
      path := (r.value? .path).map Path.mk
      verbose := (r.value? .verbose).isSome
      noColour := (r.value? .noColour).isSome }

end Reading

def Arguments.parse (words : List String) : Except Stop Arguments := do
  (← words.foldlM Reading.read {}).finish

end AssetDecl.Cli
