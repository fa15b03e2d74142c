import WireSchema.Schema.Shape
import WireSchema.Schema.Ty

/-!
# Reading type expressions

A text is a keyword or nothing. Any other value is a wrapper, a reference or a
generic, told apart by the one key that each shape requires.
-/

namespace WireSchema.Schema

set_option autoImplicit false

/-- An array length must fit 64 bits, as every integer of a document does. -/
def ArrayLength.trials (json : Json) : Trials ArrayLength := [
  ("value", match json.natural? with
    | some n => .ok (.value n)
    | none => .error (.mismatch "non-negative integer" (payload json))),
  ("generic", .generic <$> requireText json "generic")]

def ArrayLength.read (json : Json) : Except ShapeError ArrayLength :=
  firstMatch "IdlArrayLen" json (trials json)

def Primitive.trials (json : Json) : Trials Ty :=
  Primitive.all.map fun p => (p.keyword, (fun () => Ty.prim p) <$> expectWord json p.keyword)

mutual

def Ty.read (json : Json) : Except ShapeError Ty :=
  match json with
  | .str text => firstMatch "IdlType" (.str text) (Primitive.trials (.str text))
  | json => firstMatch "IdlType" json (Ty.trials json)
termination_by (sizeOf json, 1)

/-- The shapes of a type that is no keyword. -/
def Ty.trials (json : Json) : Trials Ty := [
  ("option", do
    let part ← requireKey json "option"
    return .option .byte (← Ty.readSlot part.val)),
  ("coption", do
    let part ← requireKey json "coption"
    return .option .word (← Ty.readSlot part.val)),
  ("vec", do
    let part ← requireKey json "vec"
    return .vec (← Ty.readSlot part.val)),
  ("array", do
    let part ← requireKey json "array"
    match _h : part.val with
    | .null => return .array none (.value 0)
    | .arr [ty, length] => do
      let inner ← Ty.readSlot ty
      return .array inner (← ArrayLength.read length)
    | other => .error (.mismatch "[type, length]" (payload other))),
  ("defined", do
    let part ← requireKey json "defined"
    let name ← requireText part.val "name"
    match _h : part.val.get? "generics" with
    | none | some .null => return .defined name []
    | some (.arr args) => return .defined name (← args.attach.mapM fun ⟨arg, _⟩ => GenericArg.read arg)
    | some other => .error (.mismatch "generic argument list" (payload other))),
  ("generic", do
    let part ← requireKey json "generic"
    match part.val with
    | .str name => return .generic name
    | other => .error (.mismatch "generic name" (payload other)))]
termination_by (sizeOf json, 0)
decreasing_by
  · exact Prod.Lex.left _ _ part.property
  · exact Prod.Lex.left _ _ part.property
  · exact Prod.Lex.left _ _ part.property
  · apply Prod.Lex.left
    have := part.property
    rw [_h] at this
    simp only [Json.arr.sizeOf_spec, List.cons.sizeOf_spec] at this
    omega
  · apply Prod.Lex.left
    have inList := List.sizeOf_lt_of_mem ‹arg ∈ args›
    have inPart := Json.sizeOf_lt_of_get? _h
    have := part.property
    simp only [Json.arr.sizeOf_spec] at inPart
    omega

/-- The place inside a wrapper, where `null` stands for an absent type. -/
def Ty.readSlot (json : Json) : Except ShapeError (Option Ty) :=
  match json with
  | .null => .ok none
  | json => some <$> Ty.read json
termination_by (sizeOf json, 2)

def GenericArg.read (json : Json) : Except ShapeError GenericArg :=
  firstMatch "IdlGenericArg" json (GenericArg.trials json)
termination_by (sizeOf json, 1)

def GenericArg.trials (json : Json) : Trials GenericArg := [
  ("type", do
    expectKind json "type"
    let part ← requireKey json "type"
    return .type (← Ty.read part.val)),
  ("const", do
    expectKind json "const"
    return .const (← requireText json "value"))]
termination_by (sizeOf json, 0)

end

end WireSchema.Schema
