import WireSchema.Schema.Shape

/-!
# Reading records

A record is written as an object, or as an array of its fields in declaration
order. Unknown keys count for nothing. Of several faults one is reported: in an
object the first bad value in the order of the keys, and after those the first
missing field in the order of declaration; in an array the first by position.
-/

namespace WireSchema.Schema

set_option autoImplicit false

/-- Reads one field's value. -/
abbrev ValueReader (α : Type) : Type := Json → Except RecordError α

/-- A record's contents as they are written, with its name and how many fields it has. -/
structure RecordForm where
  name : String
  size : Nat
  written : List (String × Json) ⊕ List Json

/-- Where a fault stands: at a key, or at the position of a field. -/
inductive FaultPlace where
  | key (name : String)
  | position (index : Nat)
deriving DecidableEq, Repr

/-- Keys come before positions, and both in their own order. -/
def FaultPlace.before : FaultPlace → FaultPlace → Bool
  | .key a, .key b => a < b
  | .key _, .position _ => true
  | .position _, .key _ => false
  | .position i, .position j => i < j

/-- The value of some fields together, or the fault to report for them. -/
def FieldResult (α : Type) : Type := Except (FaultPlace × RecordError) α

/-- What a record is built with, before any field is read. -/
def FieldResult.start {α : Type} (build : α) : FieldResult α := .ok build

/-- Combine what was read of some fields with what was read of one more. -/
def FieldResult.and {α β : Type} (f : FieldResult (α → β)) (x : FieldResult α) : FieldResult β :=
  match f, x with
  | .ok f, .ok x => .ok (f x)
  | .error fault, .ok _ => .error fault
  | .ok _, .error fault => .error fault
  | .error first, .error second =>
    .error (if second.1.before first.1 then second else first)

/-- The written value of the field with this name and position. -/
def RecordForm.value? (form : RecordForm) (index : Nat) (name : String) : Option (FaultPlace × Json) :=
  match form.written with
  | .inl entries => (entries.lookup name).map fun json => (.key name, json)
  | .inr items => items[index]?.map fun json => (.position index, json)

/-- A field that may be left out, with the value it has then. -/
def RecordForm.optional {α : Type} (form : RecordForm) (index : Nat) (name : String)
    (read : ValueReader α) (absent : α) : FieldResult α :=
  match form.value? index name with
  | some (place, json) =>
    match read json with
    | .ok value => .ok value
    | .error error => .error (place, error)
  | none => .ok absent

/-- A field that must be there. -/
def RecordForm.required {α : Type} (form : RecordForm) (index : Nat) (name : String)
    (read : ValueReader α) : FieldResult α :=
  match form.value? index name with
  | some (place, json) =>
    match read json with
    | .ok value => .ok value
    | .error error => .error (place, error)
  | none =>
    match form.written with
    | .inl _ => .error (.position index, .missingField name)
    | .inr _ => .error (.position index, .tooFewItems index form.name form.size)

/-- Read a record: its fields, and then that an array holds nothing more. -/
def readRecord {α : Type} (name : String) (size : Nat) (fields : RecordForm → FieldResult α) :
    ValueReader α
  | .obj entries =>
    match fields ⟨name, size, .inl entries⟩ with
    | .ok value => .ok value
    | .error (_, error) => .error error
  | .arr items =>
    match fields ⟨name, size, .inr items⟩ with
    | .ok value => if size < items.length then .error (.tooManyItems items.length) else .ok value
    | .error (_, error) => .error error
  | json => .error (.wrongType json s!"struct {name}")

namespace ValueReader

def text : ValueReader String
  | .str text => .ok text
  | json => .error (.wrongType json "a string")

def bool : ValueReader Bool
  | .bool b => .ok b
  | json => .error (.wrongType json "a boolean")

/-- A natural number below `bound`; `name` is what a message calls it. -/
def natural (name : String) (bound : Nat) : ValueReader Nat
  | .int n => if 0 ≤ n ∧ n < bound then .ok n.toNat else .error (.outOfRange n name)
  | json => .error (.wrongType json name)

def byte : ValueReader UInt8 := fun json =>
  UInt8.ofNat <$> natural "u8" 256 json

def list {α : Type} (item : ValueReader α) : ValueReader (List α)
  | .arr items => items.mapM item
  | json => .error (.wrongType json "a sequence")

/-- `null` stands for nothing. -/
def nullable {α : Type} (value : ValueReader α) : ValueReader (Option α)
  | .null => .ok none
  | json => some <$> value json

/-- A sum type in the place of a field. -/
def ofShape {α : Type} (read : Json → Except ShapeError α) : ValueReader α := fun json =>
  (read json).mapError .shape

end ValueReader

/-- A record in the place of a sum type's shape. -/
def asShape {α : Type} (target : String) (read : ValueReader α) (json : Json) :
    Except ShapeError α :=
  (read json).mapError (.invalid target)

end WireSchema.Schema
