/-!
# Command lines

A command line is a row of words. Each word is a command, an option, the value
of an option or an operand; what it is depends only on the words before it. A
command opens a level of its own with options of its own. Why a command line is
refused is not told.
-/

namespace WireSchema.CommandLine

set_option autoImplicit false

/-- What an option is followed by: nothing, or a value that must be acceptable. -/
inductive Argument where
  | nothing
  | value (accepts : String → Bool)

/-- What the words of one level may be. -/
structure Level where
  options : List (String × Argument)
  /-- Letters that stand for options. -/
  letters : List (Char × String)
  commands : List String
  /-- How many operands there may be. -/
  operands : Nat

/-- What was read so far at one level. -/
structure Given where
  options : List (String × String)
  operands : List String
  /-- The command and the words after it. -/
  command : Option (String × List String)

/-- Why reading ends early. -/
inductive Stop where
  | refused
  | help
  | version
deriving DecidableEq, Repr

namespace Given

def nothing : Given := ⟨[], [], none⟩

def value? (given : Given) (name : String) : Option String :=
  given.options.lookup name

def has (given : Given) (name : String) : Bool :=
  (given.value? name).isSome

end Given

namespace Level

/-- Add an option with its value, empty if it has none. No option may stand twice on one level. -/
def addOption (level : Level) (given : Given) (name value : String) : Except Stop Given :=
  if given.has name then .error .refused
  else
    match level.options.lookup name with
    | none => .error .refused
    | some .nothing =>
      if name = "help" then .error .help
      else if name = "version" then .error .version
      else .ok { given with options := (name, value) :: given.options }
    | some (.value accepts) =>
      if accepts value then .ok { given with options := (name, value) :: given.options }
      else .error .refused

def addOperand (level : Level) (given : Given) (word : String) : Except Stop Given :=
  if given.operands.length < level.operands then
    .ok { given with operands := given.operands ++ [word] }
  else .error .refused

/-- An option by its name, perhaps with `=` and the value. Also answers which option still lacks its
value. -/
def readNamed (level : Level) (given : Given) (text : List Char) :
    Except Stop (Given × Option String) :=
  let name := String.ofList (text.takeWhile (· ≠ '='))
  match level.options.lookup name, text.dropWhile (· ≠ '=') with
  | none, _ => .error .refused
  | some .nothing, [] => return (← level.addOption given name "", none)
  | some .nothing, _ :: _ => .error .refused
  | some (.value _), [] => .ok (given, some name)
  | some (.value _), _ :: value => return (← level.addOption given name (String.ofList value), none)

/-- Options by their letters. The first that has a value takes the other characters as its value, if
there are any, without a `=` before them. -/
def readLetters (level : Level) (given : Given) : List Char → Except Stop (Given × Option String)
  | [] => .ok (given, none)
  | c :: rest =>
    match level.letters.lookup c with
    | none => .error .refused
    | some name =>
      match level.options.lookup name, rest with
      | none, _ => .error .refused
      | some .nothing, rest => do readLetters level (← level.addOption given name "") rest
      | some (.value _), [] => .ok (given, some name)
      | some (.value _), '=' :: value =>
        return (← level.addOption given name (String.ofList value), none)
      | some (.value _), value => return (← level.addOption given name (String.ofList value), none)

/-- The words from here on; `lacking` is the option whose value comes next. No value starts with a
hyphen, unless it is nothing else, and after a word of two hyphens all are operands. -/
def read (level : Level) (given : Given) (lacking : Option String) :
    List String → Except Stop Given
  | [] => if lacking.isSome then .error .refused else .ok given
  | word :: rest =>
    match lacking, word.toList with
    | some _, '-' :: _ :: _ => .error .refused
    | some name, _ => do level.read (← level.addOption given name word) none rest
    | none, ['-', '-'] => rest.foldlM level.addOperand given
    | none, '-' :: '-' :: text => do
      let (given, lacking) ← level.readNamed given text
      level.read given lacking rest
    | none, '-' :: c :: text => do
      let (given, lacking) ← level.readLetters given (c :: text)
      level.read given lacking rest
    | none, _ =>
      if level.commands.contains word then .ok { given with command := some (word, rest) }
      else do level.read (← level.addOperand given word) none rest

end Level

end WireSchema.CommandLine
