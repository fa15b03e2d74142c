import WireSchema.CommandLine.Run

/-!
# The program

Reads the settings and the one file that the command line asks for, and carries
out what a run ends with. All decisions are made in `CommandLine.run`.
-/

namespace WireSchema

set_option autoImplicit false

open CommandLine

/-- The fault that an error of the system stands for, if it is one that a run can report. -/
def faultOf? : IO.Error → Option FileFault
  | .noFileOrDirectory _ _ _ => some .missing
  | .permissionDenied _ _ _ => some .denied
  | .inappropriateType _ code _ => some (if code = 20 then .notDirectory else .isDirectory)
  | .invalidArgument _ code _ => if code = 36 then some .nameTooLong else none
  | _ => none

/-- The result of an action, or the fault that kept it from its end. -/
def faultsOf {α : Type} (action : IO α) : IO (Except FileFault α) := do
  try
    return .ok (← action)
  catch error =>
    match faultOf? error with
    | some fault => return .error fault
    | none => throw error

def readFile (path : String) : IO FileContent :=
  if path.toList.contains '\x00' then return .error .nulInName
  else faultsOf do return (← IO.FS.readBinFile path).data.toList

/-- The directory for settings: the configured one if it is absolute, else one in the home directory. -/
def settingsDirectory? : IO (Option String) := do
  match ← IO.getEnv "XDG_CONFIG_HOME" with
  | some directory => if directory.startsWith "/" then return some directory
  | none => pure ()
  match ← IO.getEnv "HOME" with
  | some home => if home = "" then return none else return some s!"{home}/.config"
  | none => return none

/-- Save settings under a directory. -/
def saveSettings (directory : String) (settings : Settings) : IO (Except FileFault Unit) :=
  faultsOf do
    IO.FS.createDirAll s!"{directory}/idl-codec"
    IO.FS.writeFile s!"{directory}/idl-codec/config.toml" settings.toText

/-- The world of an invocation that wants at most one file. -/
def surroundings (directory : Option String) (words : List String) : IO Surroundings := do
  let settingsFile ← match directory with
    | some directory =>
      let path := s!"{directory}/idl-codec/config.toml"
      pure (some (path, ← readFile path))
    | none => pure none
  let world : Surroundings := ⟨settingsFile, fun _ => .error .missing⟩
  match Invocation.ofWords words with
  | .error _ => return world
  | .ok inv =>
    match inv.wantedFile? world.currentSettings with
    | none => return world
    | some path =>
      let content ← readFile path
      return { world with read := fun _ => content }

/-- Run a command line and carry out what it ends with. -/
def runProgram (words : List String) : IO UInt32 := do
  let directory ← settingsDirectory?
  let planned := CommandLine.run (← surroundings directory words) words
  let ending ← match directory, planned.saved with
    | some directory, some settings =>
      match ← saveSettings directory settings with
      | .ok _ => pure planned
      | .error fault => pure (.unsaved fault)
    | _, _ => pure planned
  (← IO.getStdout).putStr ending.stdout
  (← IO.getStderr).putStr ending.stderr
  return UInt32.ofNat ending.exitCode

end WireSchema

def main (words : List String) : IO UInt32 :=
  WireSchema.runProgram words
