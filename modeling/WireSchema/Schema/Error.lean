import WireSchema.Json.Printer
import WireSchema.Text.Quoted

/-!
# Why a JSON value was refused

A value that should have one of several shapes is refused with the reason of
every shape that was tried; a record is refused for its first fault. The two
kinds of error contain each other. `message` is the one place with their wording.
-/

namespace WireSchema.Schema

set_option autoImplicit false

/-- The longest beginning of a text, in whole characters, that has at most `budget` bytes. -/
def cutToBytes (budget : Nat) : List Char → List Char
  | [] => []
  | c :: rest => if c.utf8Size ≤ budget then c :: cutToBytes (budget - c.utf8Size) rest else []

/-- How many bytes of a value's text a message shows. -/
def payloadLimit : Nat := 200

/-- The compact text of a value, cut off when it is long. -/
def payload (json : Json) : String :=
  let text := json.compact
  if text.utf8ByteSize ≤ payloadLimit then text
  else String.ofList (cutToBytes payloadLimit text.toList) ++ "..."

/-- The sort of a value, with the value itself where it is short. -/
def describe : Json → String
  | .null => "null"
  | .bool b => s!"boolean `{b}`"
  | .int n => s!"integer `{n}`"
  | .float bits => s!"floating point `{Json.number bits}`"
  | .str text => s!"string {Text.quoted text}"
  | .arr _ => "sequence"
  | .obj _ => "map"

mutual

/-- A value that has none of the shapes its place allows. -/
inductive ShapeError where
  | unresolved (target payload : String) (attempts : List (String × ShapeError))
  | unknownDocument (payload : String)
  | mismatch (expected payload : String)
  | missingKey (key payload : String)
  | invalid (target : String) (reason : RecordError)

/-- A fault of a record or of a plain value in one. -/
inductive RecordError where
  | wrongType (found : Json) (expected : String)
  | outOfRange (found : Int) (expected : String)
  | missingField (name : String)
  | tooFewItems (count : Nat) (record : String) (fields : Nat)
  | tooManyItems (count : Nat)
  | shape (error : ShapeError)

end

mutual

def ShapeError.message : ShapeError → String
  | .unresolved target payload attempts =>
    s!"unresolved {target}: no variant accepts {payload} (tried {attemptMessages attempts})"
  | .unknownDocument payload => s!"unknown document shape: {payload}"
  | .mismatch expected payload => s!"expected {expected}, found {payload}"
  | .missingKey key payload => s!"missing key `{key}` in {payload}"
  | .invalid target reason => s!"invalid {target}: {reason.message}"

def RecordError.message : RecordError → String
  | .wrongType found expected => s!"invalid type: {describe found}, expected {expected}"
  | .outOfRange found expected => s!"invalid value: integer `{found}`, expected {expected}"
  | .missingField name => s!"missing field `{name}`"
  | .tooFewItems count record fields =>
    s!"invalid length {count}, expected struct {record} with {fields} elements"
  | .tooManyItems count => s!"invalid length {count}, expected fewer elements in array"
  | .shape error => error.message

/-- The failed attempts, each after the name of its shape. -/
def attemptMessages : List (String × ShapeError) → String
  | [] => ""
  | [(name, error)] => s!"{name}: {error.message}"
  | (name, error) :: rest => s!"{name}: {error.message}; {attemptMessages rest}"

end

theorem utf8ByteSize_cutToBytes_le (budget : Nat) (text : List Char) :
    (String.ofList (cutToBytes budget text)).utf8ByteSize ≤ budget := by
  induction text generalizing budget with
  | nil => simp [cutToBytes]
  | cons c rest ih =>
    simp only [cutToBytes]
    split
    · next h =>
      have := ih (budget - c.utf8Size)
      rw [String.ofList_cons]
      simp only [String.utf8ByteSize_append, String.utf8ByteSize_singleton]
      omega
    · simp

theorem cutToBytes_isPrefix (budget : Nat) (text : List Char) : cutToBytes budget text <+: text := by
  induction text generalizing budget with
  | nil => simp [cutToBytes]
  | cons c rest ih =>
    simp only [cutToBytes]
    split
    · exact List.cons_prefix_cons.2 ⟨rfl, ih _⟩
    · exact List.nil_prefix

end WireSchema.Schema
