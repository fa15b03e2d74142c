import WireSchema.Schema.Error

/-!
# Telling shapes apart

A sum type is read by trying its shapes in a fixed order; the first that
accepts gives the value. The tests below are what the shapes are told apart by:
an exact word, a key, the word under the key `kind`.
-/

namespace WireSchema.Schema

set_option autoImplicit false

/-- The value under a key, known to be smaller than the value it was taken from. -/
abbrev Part (json : Json) : Type := { part : Json // sizeOf part < sizeOf json }

/-- What each shape of a sum type makes of a value, in the order of trial. -/
abbrev Trials (α : Type) : Type := List (String × Except ShapeError α)

/-- The first success, or all the reasons. -/
def Trials.first {α : Type} : Trials α → Except (List (String × ShapeError)) α
  | [] => .error []
  | (_, .ok value) :: _ => .ok value
  | (name, .error error) :: rest =>
    match Trials.first rest with
    | .ok value => .ok value
    | .error errors => .error ((name, error) :: errors)

/-- Read a value as the first shape that accepts it. -/
def firstMatch {α : Type} (target : String) (json : Json) (trials : Trials α) :
    Except ShapeError α :=
  match trials.first with
  | .ok value => .ok value
  | .error attempts => .error (.unresolved target (payload json) attempts)

def expectWord (json : Json) (word : String) : Except ShapeError Unit :=
  match json with
  | .str text => if text = word then .ok () else .error (.mismatch word (payload json))
  | _ => .error (.mismatch word (payload json))

def requireKey (json : Json) (key : String) : Except ShapeError (Part json) :=
  match json with
  | .obj entries =>
    match h : (Json.obj entries).get? key with
    | some part => .ok ⟨part, Json.sizeOf_lt_of_get? h⟩
    | none => .error (.missingKey key (payload (.obj entries)))
  | json => .error (.mismatch "object" (payload json))

def expectKind (json : Json) (kind : String) : Except ShapeError Unit := do
  let part ← requireKey json "kind"
  expectWord part.val kind

def requireText (json : Json) (key : String) : Except ShapeError String := do
  let part ← requireKey json key
  match part.val with
  | .str text => return text
  | other => .error (.mismatch "string" (payload other))

end WireSchema.Schema
