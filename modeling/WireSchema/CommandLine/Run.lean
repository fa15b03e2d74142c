import WireSchema.Bytes.Base64
import WireSchema.CommandLine.Files
import WireSchema.CommandLine.Invocation
import WireSchema.CommandLine.Report
import WireSchema.Json.Printer
import WireSchema.Program.Dispatch

/-!
# Running a command line

A run sees its surroundings, which are the settings file and the files that it
may read, and ends with an outcome: what it prints, why it failed if it did, and
the settings that it wants to be kept. It changes nothing itself.
-/

namespace WireSchema.CommandLine

set_option autoImplicit false

open Schema

structure Surroundings where
  /-- Where the settings are kept, and what is there. -/
  settingsFile : Option (String × FileContent)
  read : String → FileContent

/-- Why a file that should hold text was not read. -/
inductive TextFault where
  | file (fault : FileFault)
  | notUtf8

def TextFault.message : TextFault → String
  | .file fault => fault.message
  | .notUtf8 => "stream did not contain valid UTF-8"

def textOf (content : FileContent) : Except TextFault String := do
  match Text.ofUtf8? (← content.mapError .file) with
  | some text => return text
  | none => throw .notUtf8

inductive RunError where
  | noDocument
  | absent (path : String)
  | unreadable (path : String) (fault : TextFault)
  | refused (path : String) (error : SourceError)
  | unreadableData (path : String) (fault : FileFault)
  | invalid (problems : Problems)
  | failure (error : Failure)
  | unknownType (name : String) (available : List String)
  | data (error : Bytes.Base64Error)
  | unusableSettings (fault : TextFault)
  | settings (error : SettingsError)

/-- An error of the document and the error behind it, if there is one. -/
def sourceCauses (error : SourceError) : List String :=
  match error with
  | .legacy _ | .compressed _ => [error.message]
  | .unreadable fault => [error.message, faultText fault]
  | .shape reason => [error.message, reason.message]
  | .record reason => [error.message, reason.message]

def failureCauses (error : Failure) : List String :=
  match error with
  | .source reason => sourceCauses reason
  | .invalid problems => [error.message, problems.message]
  | .derivation reason => [error.message, reason.message]
  | .codec _ | .programId _ => [error.message]

/-- The causes of an error, the nearest last. -/
def RunError.causes : RunError → List String
  | .noDocument => ["No IDL given. Pass --idl <PATH> or set one with "
      ++ "`idl-codec config set --default-idl <PATH>`."]
  | .absent path =>
    [s!"Failed to load {path}", s!"IO error: File not found: {path}", s!"File not found: {path}"]
  | .unreadable path fault =>
    [s!"Failed to load {path}", s!"IO error: {fault.message}", fault.message]
  | .refused path error => s!"Failed to load {path}" :: sourceCauses error
  | .unreadableData path fault => [s!"Failed to read {path}", fault.message]
  | .invalid problems => [s!"IDL has {problems.count} problem(s)"]
  | .failure error => failureCauses error
  | .unknownType name _ => [s!"Type '{name}' not found"]
  | .data error => ["--data is not valid base64", error.message]
  | .unusableSettings fault => [s!"IO error: {fault.message}", fault.message]
  | .settings error => [error.message]

/-- What is printed about a problem before the error itself. -/
def RunError.hints (error : RunError) : List String :=
  match error with
  | .unknownType name available => s!"Error: Type '{name}' not found" :: availableLines available
  | _ => []

/-- What is printed about an error where the results would be. -/
def RunError.report : RunError → List String
  | .invalid problems => problemLines problems
  | _ => []

/-- What a run that succeeds prints, and the settings that it saves. -/
structure Result where
  lines : List String
  saved : Option Settings

abbrev Outcome : Type := Except RunError Result

/-- What is left of a run. -/
structure Ending where
  exitCode : Nat
  stdout : String
  stderr : String
  saved : Option Settings
deriving DecidableEq, Repr

def Outcome.ending : Outcome → Ending
  | .ok result => ⟨0, ofLines result.lines, "", result.saved⟩
  | .error error =>
    ⟨1, ofLines error.report, ofLines (error.hints ++ ["Error: " ++ ": ".intercalate error.causes]), none⟩

/-- What is left of a run whose settings could not be kept. -/
def Ending.unsaved (fault : FileFault) : Ending :=
  Outcome.ending (.error (.unusableSettings (.file fault)))

namespace Surroundings

/-- The settings that are kept; there are initial ones as long as there is no file. -/
def settings (world : Surroundings) : Except RunError Settings :=
  match world.settingsFile with
  | none => .error (.settings .noHome)
  | some (_, content) =>
    match textOf content with
    | .ok text => (Settings.ofText text).mapError .settings
    | .error (.file fault) =>
      if fault.isAbsence then .ok Settings.initial else .error (.unusableSettings (.file fault))
    | .error .notUtf8 => .error (.unusableSettings .notUtf8)

/-- The settings that a run works with; those that cannot be read count as initial. -/
def currentSettings (world : Surroundings) : Settings :=
  match world.settings with
  | .ok settings => settings
  | .error _ => Settings.initial

end Surroundings

/-- The file with the document of an invocation. -/
def Invocation.documentPath? (inv : Invocation) (settings : Settings) : Option String :=
  inv.idl.or settings.defaultIdl

/-- The one file that a run reads, if it reads any. -/
def Invocation.wantedFile? (inv : Invocation) (settings : Settings) : Option String :=
  match inv.command with
  | .check | .discriminators | .layout _ | .decode _ _ => inv.documentPath? settings
  | .address _ | .listSettings | .changeSettings _ => none

/-- The document of a file that holds it as text. -/
def loadText (world : Surroundings) (path : String) : Except RunError Document :=
  match textOf (world.read path) with
  | .ok text => (Document.ofText text).mapError (.refused path)
  | .error (.file fault) =>
    if fault.isAbsence then .error (.absent path) else .error (.unreadable path (.file fault))
  | .error .notUtf8 => .error (.unreadable path .notUtf8)

/-- The document of a file that holds the data of an account. -/
def loadAccountData (world : Surroundings) (path : String) : Except RunError Document := do
  let data ← (world.read path).mapError (.unreadableData path)
  (Document.ofAccountData data).mapError fun error => .failure (.source error)

namespace Invocation

def document (inv : Invocation) (world : Surroundings) : Except RunError Document :=
  match inv.documentPath? world.currentSettings with
  | none => .error .noDocument
  | some path => if inv.accountData then loadAccountData world path else loadText world path

def program (inv : Invocation) (world : Surroundings) : Except RunError Program := do
  (Program.ofDocument (← inv.document world)).mapError .failure

/-- Check the document; all its problems are reported. -/
def check (inv : Invocation) (world : Surroundings) : Except RunError (List String) := do
  match Program.ofDocument (← inv.document world) with
  | .ok p => return overview p
  | .error (.invalid problems) => throw (.invalid problems)
  | .error error => throw (.failure error)

/-- Show all layouts, or the one with a name, which must be there. -/
def layout (inv : Invocation) (world : Surroundings) (name : Option String) :
    Except RunError (List String) := do
  let p ← inv.program world
  match name with
  | none => return layoutLines p.layouts fun _ => true
  | some name =>
    if p.layouts.contains name then return layoutLines p.layouts (· = name)
    else throw (.unknownType name p.layouts.keys)

/-- The value of some data, after what it was recognised as where no target was given. -/
def decodeLines (p : Program) (target : Target) (data : List UInt8) :
    Except CodecError (List String) := do
  let shown (value : Value) : String := value.toJson.pretty 0
  match target with
  | .auto =>
    let (identified, value) ← p.decodeAny data
    return [s!"{identified.kind.label} {identified.name}", shown value]
  | .account name => return [shown (← p.decodeAccount name data)]
  | .event name => return [shown (← p.decodeEvent name data)]
  | .instruction name => return [shown (← p.decodeInstruction name data)]

/-- Read data in base 64; white space around it does not count. -/
def decode (inv : Invocation) (world : Surroundings) (text : String) (target : Target) :
    Except RunError (List String) := do
  let p ← inv.program world
  let trimmed := String.ofList (Unicode.trim text.toList)
  let data ← (Bytes.unbase64 (Text.utf8 trimmed)).mapError .data
  (decodeLines p target data).mapError fun error => .failure (.codec error)

end Invocation

def listSettings (world : Surroundings) : Except RunError (List String) := do
  let settings ← world.settings
  match world.settingsFile with
  | none => throw (.settings .noHome)
  | some (path, content) =>
    let found := match content with
      | .ok _ => true
      | .error fault => !fault.isAbsence
    return settingsLines path found settings

/-- Settings with their new values. -/
def SettingsChange.apply (change : SettingsChange) (settings : Settings) : Settings where
  logLevel := change.logLevel.getD settings.logLevel
  color := change.color.getD settings.color
  defaultIdl := change.defaultIdl.or settings.defaultIdl

def SettingsChange.isEmpty (change : SettingsChange) : Bool :=
  change.logLevel.isNone && change.color.isNone && change.defaultIdl.isNone

/-- Save settings with their new values, if they make sense then. -/
def changeSettings (world : Surroundings) (change : SettingsChange) : Outcome := do
  if change.isEmpty then
    return ⟨["No value provided to set.", "Usage: idl-codec config set [--log-level <LEVEL>] "
      ++ "[--color <BOOL>] [--default-idl <PATH>]"], none⟩
  let settings := change.apply (← world.settings)
  settings.validate.mapError .settings
  match world.settingsFile with
  | none => throw (.settings .noHome)
  | some (path, _) => return ⟨[s!"Saved configuration to {path}"], some settings⟩

/-- Run what a command line asks for. -/
def Invocation.run (inv : Invocation) (world : Surroundings) : Outcome :=
  let printed (lines : Except RunError (List String)) : Outcome := lines.map fun lines => ⟨lines, none⟩
  match inv.command with
  | .check => printed (inv.check world)
  | .discriminators => printed (discriminatorLines <$> inv.program world)
  | .layout name => printed (inv.layout world name)
  | .decode data target => printed (inv.decode world data target)
  | .address programId =>
    printed (((Program.addressOf programId).mapError .failure).map fun address => [address])
  | .listSettings => printed (listSettings world)
  | .changeSettings change => changeSettings world change

theorem Invocation.document_eq_of_read (inv : Invocation) (world : Surroundings)
    (read : String → FileContent)
    (h : ∀ path ∈ inv.documentPath? world.currentSettings, read path = world.read path) :
    inv.document { world with read } = inv.document world := by
  have current : Surroundings.currentSettings { world with read } = world.currentSettings := rfl
  simp only [Invocation.document, current]
  split
  · rfl
  · next path heq => simp [loadAccountData, loadText, h path heq]

/-- A run reads no file but the wanted one. -/
theorem Invocation.run_eq_of_read (inv : Invocation) (world : Surroundings)
    (read : String → FileContent)
    (h : ∀ path ∈ inv.wantedFile? world.currentSettings, read path = world.read path) :
    inv.run { world with read } = inv.run world := by
  obtain ⟨idl, accountData, command⟩ := inv
  cases command with
  | check => simp [Invocation.run, Invocation.check, document_eq_of_read _ world read h]
  | discriminators => simp [Invocation.run, Invocation.program, document_eq_of_read _ world read h]
  | layout name =>
    simp [Invocation.run, Invocation.layout, Invocation.program, document_eq_of_read _ world read h]
  | decode data target =>
    simp [Invocation.run, Invocation.decode, Invocation.program, document_eq_of_read _ world read h]
  | address programId => rfl
  | listSettings => rfl
  | changeSettings change => rfl

def versionText : String := "idl-codec 0.1.0\n"

def usageLines : List String :=
  ["Parse, validate and derive Borsh codecs and discriminators from Anchor program IDLs", "",
    "Usage: idl-codec [OPTIONS] <COMMAND>", "",
    "Commands:",
    "  check                          Validate the IDL and derive every codec",
    "  discriminators                 List discriminators of accounts, events and instructions",
    "  layout [NAME]                  Show derived wire layouts",
    "  decode --data <DATA> [--account <NAME> | --event <NAME> | --instruction <NAME>]",
    "                                 Decode base64 account, event or instruction data",
    "  address <PROGRAM_ID>           Print the IDL account address of a program",
    "  config show                    Show current configuration",
    "  config set [--log-level <LEVEL>] [--color <BOOL>] [--default-idl <PATH>]",
    "                                 Set configuration values", "",
    "Options:",
    "  -i, --idl <IDL>     IDL JSON file (defaults to `default_idl` from the config)",
    "      --account-data  Treat the IDL file as raw on-chain IDL account data",
    "  -h, --help          Print help",
    "  -V, --version       Print version"]

/-- Run a command line without the name of the program. One that is refused ends with code 2. -/
def run (world : Surroundings) (words : List String) : Ending :=
  match Invocation.ofWords words with
  | .ok inv => (inv.run world).ending
  | .error .version => ⟨0, versionText, "", none⟩
  | .error .help => ⟨0, ofLines usageLines, "", none⟩
  | .error .refused => ⟨2, "", ofLines usageLines, none⟩

end WireSchema.CommandLine
