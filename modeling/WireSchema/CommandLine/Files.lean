import WireSchema.Keyed
import WireSchema.Text.Pieces

/-!
# Files

A tree of files and directories, and what is found under a path. A path is
followed name by name: every name needs a directory to stand in, `..` leads to
the directory above, and the top counts as above itself. Links and permissions
are not part of a tree.
-/

namespace WireSchema.CommandLine

set_option autoImplicit false

/-- Why a file cannot be read or written. -/
inductive FileFault where
  | missing
  | notDirectory
  | isDirectory
  | denied
  | nameTooLong
  | nulInName
deriving DecidableEq, Repr

def FileFault.message : FileFault → String
  | .missing => "No such file or directory (os error 2)"
  | .notDirectory => "Not a directory (os error 20)"
  | .isDirectory => "Is a directory (os error 21)"
  | .denied => "Permission denied (os error 13)"
  | .nameTooLong => "File name too long (os error 36)"
  | .nulInName => "file name contained an unexpected NUL byte"

/-- There is nothing at all under the name. -/
def FileFault.isAbsence : FileFault → Bool
  | .missing | .notDirectory | .nameTooLong | .nulInName => true
  | .isDirectory | .denied => false

abbrev FileContent : Type := Except FileFault (List UInt8)

inductive FileTree where
  | file (content : List UInt8)
  | directory (entries : List (String × FileTree))

/-- The most bytes that one name may have. -/
def nameLimit : Nat := 255

/-- A path must have fewer bytes than this. -/
def pathLimit : Nat := 4096

def pathNames (path : String) : List String :=
  (Text.pieces (· = '/') path.toList).map String.ofList

/-- The tree with a file under some names; directories on the way to it are made where none is. -/
def FileTree.write (content : List UInt8) : List String → FileTree → Except FileFault FileTree
  | [], .file _ => .ok (.file content)
  | [], .directory _ => .error .isDirectory
  | _ :: _, .file _ => .error .notDirectory
  | name :: rest, .directory entries => do
    let fresh : FileTree := if rest.isEmpty then .file [] else .directory []
    let node ← write content rest ((entries.lookup name).getD fresh)
    return .directory (Keyed.insert name node entries)

/-- What stands at a place of a tree, and the directories above it, the nearest first. -/
structure Place where
  node : FileTree
  above : List FileTree

namespace Place

/-- The place that one name leads to. An empty name and `.` lead nowhere else. -/
def step (place : Place) (name : String) : Except FileFault Place :=
  match place.node with
  | .file _ => .error .notDirectory
  | .directory entries =>
    if name = "" ∨ name = "." then .ok place
    else if name = ".." then
      match place.above with
      | [] => .ok place
      | node :: above => .ok ⟨node, above⟩
    else if nameLimit < name.utf8ByteSize then .error .nameTooLong
    else
      match entries.lookup name with
      | some node => .ok ⟨node, place.node :: place.above⟩
      | none => .error .missing

/-- The place that some names lead to, one after the other. -/
def walk (place : Place) (names : List String) : Except FileFault Place :=
  names.foldlM step place

/-- The top of the tree. -/
def top (place : Place) : Place :=
  match place.above.getLast? with
  | some node => ⟨node, []⟩
  | none => place

/-- The place under a path. A path that begins with a slash starts at the top. -/
def follow (place : Place) (path : String) : Except FileFault Place :=
  if path.toList.contains '\x00' then .error .nulInName
  else if path = "" then .error .missing
  else if pathLimit ≤ path.utf8ByteSize then .error .nameTooLong
  else (if path.toList.head? = some '/' then place.top else place).walk (pathNames path)

/-- The content of the file under a path. -/
def read (place : Place) (path : String) : FileContent := do
  match (← place.follow path).node with
  | .file content => return content
  | .directory _ => throw .isDirectory

end Place

end WireSchema.CommandLine
