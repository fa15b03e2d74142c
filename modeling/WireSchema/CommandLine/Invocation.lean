import WireSchema.CommandLine.Arguments

/-!
# What a command line asks for

Options for the document may stand at every level; of one that stands at
several levels the deepest counts. What is asked for need not be possible.
-/

namespace WireSchema.CommandLine

set_option autoImplicit false

/-- As what some data is to be read. -/
inductive Target where
  | auto
  | account (name : String)
  | event (name : String)
  | instruction (name : String)
deriving DecidableEq, Repr

/-- New values for settings; a setting without one stays. -/
structure SettingsChange where
  logLevel : Option String
  color : Option Bool
  defaultIdl : Option String
deriving DecidableEq, Repr

inductive Command where
  | check
  | discriminators
  | layout (name : Option String)
  | decode (data : String) (target : Target)
  | address (programId : String)
  | listSettings
  | changeSettings (change : SettingsChange)
deriving DecidableEq, Repr

structure Invocation where
  /-- The file with the document. -/
  idl : Option String
  /-- The file holds the data of an account, not a text. -/
  accountData : Bool
  command : Command
deriving DecidableEq, Repr

def pathValue : Argument := .value (· ≠ "")

def textValue : Argument := .value fun _ => true

def switchValue : Argument := .value fun text => text = "true" || text = "false"

/-- A level with the options that stand everywhere. -/
def levelWith (options : List (String × Argument)) (letters : List (Char × String))
    (commands : List String) (operands : Nat) : Level where
  options := options ++ [("idl", pathValue), ("account-data", .nothing), ("help", .nothing)]
  letters := letters ++ [('i', "idl"), ('h', "help")]
  commands := commands
  operands := operands

def topLevel : Level :=
  levelWith [("version", .nothing)] [('V', "version")]
    ["check", "discriminators", "layout", "decode", "address", "config", "help"] 0

def settingsLevel : Level :=
  levelWith [] [] ["show", "set", "help"] 0

def plainLevel (operands : Nat) : Level :=
  levelWith [] [] [] operands

def decodeLevel : Level :=
  levelWith [("data", textValue), ("account", textValue), ("event", textValue),
    ("instruction", textValue)] [('d', "data")] [] 0

def changeLevel : Level :=
  levelWith [("log-level", textValue), ("color", switchValue), ("default-idl", pathValue)] [] [] 0

/-- The one target that is named, if any is. -/
def targetOf (given : Given) : Except Stop Target :=
  match given.value? "account", given.value? "event", given.value? "instruction" with
  | none, none, none => .ok .auto
  | some name, none, none => .ok (.account name)
  | none, some name, none => .ok (.event name)
  | none, none, some name => .ok (.instruction name)
  | _, _, _ => .error .refused

/-- The commands of the level that a command opens. -/
def commandsOf (command : String) : List String :=
  if command = "config" then settingsLevel.commands else []

/-- Help is given on a command that the words lead to, one level after the other. -/
def helpOn (commands : List String) : List String → Stop
  | [] => .help
  | word :: rest => if commands.contains word then helpOn (commandsOf word) rest else .refused

/-- The invocation that the words of all levels, the outermost first, give to a command. -/
def Invocation.ofLevels (levels : List Given) (command : Command) : Invocation where
  idl := levels.reverse.findSome? (·.value? "idl")
  accountData := levels.any (·.has "account-data")
  command := command

/-- The words after the command for settings. -/
def readSettings (top : Given) (words : List String) : Except Stop Invocation := do
  let given ← settingsLevel.read .nothing none words
  match given.command with
  | some ("show", rest) =>
    return .ofLevels [top, given, ← (plainLevel 0).read .nothing none rest] .listSettings
  | some ("set", rest) =>
    let inner ← changeLevel.read .nothing none rest
    return .ofLevels [top, given, inner] <| .changeSettings
      ⟨inner.value? "log-level", (inner.value? "color").map (· = "true"), inner.value? "default-idl"⟩
  | some (_, rest) => throw (helpOn settingsLevel.commands rest)
  | none => throw .refused

/-- What a command line without the name of the program asks for. -/
def Invocation.ofWords (words : List String) : Except Stop Invocation := do
  let top ← topLevel.read .nothing none words
  match top.command with
  | some ("check", rest) => return .ofLevels [top, ← (plainLevel 0).read .nothing none rest] .check
  | some ("discriminators", rest) =>
    return .ofLevels [top, ← (plainLevel 0).read .nothing none rest] .discriminators
  | some ("layout", rest) =>
    let given ← (plainLevel 1).read .nothing none rest
    return .ofLevels [top, given] (.layout given.operands.head?)
  | some ("decode", rest) =>
    let given ← decodeLevel.read .nothing none rest
    let target ← targetOf given
    match given.value? "data" with
    | some data => return .ofLevels [top, given] (.decode data target)
    | none => throw .refused
  | some ("address", rest) =>
    let given ← (plainLevel 1).read .nothing none rest
    match given.operands.head? with
    | some programId => return .ofLevels [top, given] (.address programId)
    | none => throw .refused
  | some ("config", rest) => readSettings top rest
  | some (_, rest) => throw (helpOn topLevel.commands rest)
  | none => throw .refused

end WireSchema.CommandLine
