import WireSchema.Text.Pieces
import WireSchema.Text.Utf8
import WireSchema.Toml.Reader
import WireSchema.Toml.Writer
import WireSchema.Unicode.Ranges

/-!
# Settings

What the command line remembers between runs, and its form as a file. A file
need not name every setting, and may name others, which are ignored. Settings
that are read need not make sense; `validate` says whether they do.
-/

namespace WireSchema

set_option autoImplicit false

open Text Unicode

structure Settings where
  /-- Directives for the log, as in `info` or `codec=debug,warn`. -/
  logLevel : String
  color : Bool
  /-- The document to use where a command line names none. -/
  defaultIdl : Option String
deriving DecidableEq, Repr

inductive SettingsError where
  | noHome
  | malformed
  | badDirective (directive : String)
  | emptyLogLevel
  | emptyDefaultIdl
deriving DecidableEq, Repr

def SettingsError.reason : SettingsError → String
  | .noHome => "Could not determine config directory"
  | .malformed => "Failed to parse config"
  | .badDirective directive =>
    s!"log_level directive `{directive}` must be a level (off, error, warn, info, debug, trace) or module=level"
  | .emptyLogLevel => "log_level must not be empty"
  | .emptyDefaultIdl => "default_idl must not be empty"

def SettingsError.message (error : SettingsError) : String :=
  s!"Config error: {error.reason}"

namespace Settings

/-- The settings as long as there is no file. -/
def initial : Settings := ⟨"warn", true, none⟩

/-- The value under a key, which may be missing but not of another type. -/
def setting? {α : Type} (read : Toml.Leaf → Option α) (missing : α) (key : String)
    (entries : Toml.Entries) : Option α :=
  match entries.lookup key with
  | none => some missing
  | some (.leaf leaf) => read leaf
  | some _ => none

def textLeaf? : Toml.Leaf → Option String
  | .text value => some value
  | _ => none

def switchLeaf? : Toml.Leaf → Option Bool
  | .switch value => some value
  | _ => none

def ofEntries? (entries : Toml.Entries) : Option Settings := do
  let logLevel ← setting? textLeaf? initial.logLevel "log_level" entries
  let color ← setting? switchLeaf? initial.color "color" entries
  let defaultIdl ← setting? (fun leaf => some <$> textLeaf? leaf) initial.defaultIdl "default_idl" entries
  return ⟨logLevel, color, defaultIdl⟩

/-- The settings in the text of a file; a blank text has none. -/
def ofText (text : String) : Except SettingsError Settings :=
  if trim text.toList = [] then .ok initial
  else
    match (Toml.ofText? text).bind ofEntries? with
    | some settings => .ok settings
    | none => .error .malformed

/-- The text of a file with these settings, one a line. -/
def toText (settings : Settings) : String :=
  s!"log_level = {Toml.textValue settings.logLevel}\ncolor = {settings.color}\n"
    ++ match settings.defaultIdl with
      | some path => s!"default_idl = {Toml.textValue path}\n"
      | none => ""

def levels : List String := ["off", "error", "warn", "info", "debug", "trace"]

/-- One of the levels in any case. -/
def isLevel (text : List Char) : Bool :=
  levels.contains (String.ofList (text.map Char.toLower))

/-- A directive is a level, or a module and a level with `=` between them. -/
def isDirective (directive : List Char) : Bool :=
  match directive.dropWhile (· ≠ '=') with
  | [] => isLevel directive
  | _ :: level => trim (directive.takeWhile (· ≠ '=')) ≠ [] && isLevel (trim level)

/-- The directives of a log level: commas part them, and a slash ends them. -/
def directives (logLevel : String) : List (List Char) :=
  ((pieces (· = ',') (logLevel.toList.takeWhile (· ≠ '/'))).map trim).filter (· ≠ [])

/-- Settings make sense if there is a directive, all directives are good, and the document has a name. -/
def validate (settings : Settings) : Except SettingsError Unit :=
  match (directives settings.logLevel).find? (!isDirective ·) with
  | some directive => .error (.badDirective (String.ofList directive))
  | none =>
    if directives settings.logLevel = [] then .error .emptyLogLevel
    else if settings.defaultIdl = some "" then .error .emptyDefaultIdl
    else .ok ()

end Settings

end WireSchema
