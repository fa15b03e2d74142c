import WireSchema.Codec.Decoder
import WireSchema.Codec.Derivation
import WireSchema.Program.Constant
import WireSchema.Schema.Source
import WireSchema.Schema.Validation

/-!
# Programs

A document that was accepted, with the layouts of its types and with a table of
what its accounts, events and instructions look like. A program is built once;
what it is used for later never changes it.
-/

namespace WireSchema

set_option autoImplicit false

open Schema

/-- An account or an event: its name, what its data starts with, and how the rest is read. -/
structure DataEntry where
  name : String
  discriminator : Discriminator
  codec : Codec
deriving DecidableEq, Repr

structure InstructionEntry where
  name : String
  discriminator : Discriminator
  args : List FieldCodec
  returns : Option Codec
deriving DecidableEq, Repr

structure Program where
  document : Document
  layouts : LayoutSet
  accounts : List DataEntry
  events : List DataEntry
  instructions : List InstructionEntry

/-- Why there is no program, or an operation on one has no result. -/
inductive Failure where
  | source (error : SourceError)
  | invalid (problems : Problems)
  | derivation (error : DerivationError)
  | codec (error : CodecError)
  | programId (reason : String)

def Failure.message : Failure → String
  | .source error => error.message
  | .invalid problems => s!"IDL validation failed:\n{problems.message}"
  | .derivation error => s!"Codec derivation failed: {error.message}"
  | .codec error => error.message
  | .programId reason => s!"Invalid program ID: {reason}"

namespace Program

def resolve (kind : EntityKind) (name : String) (supplied : List UInt8) :
    Except DerivationError Discriminator :=
  (Discriminator.resolve kind name supplied).mapError .discriminatorLength

/-- The entry of an instruction. -/
def instructionEntry (registry : Registry) (ix : Instruction) : Derivation InstructionEntry := do
  let path := s!"instructions.{ix.name}"
  let args ← registry.fields ix.args path
  let returns ← match ix.returns with
    | some ty => some <$> registry.codec (some ty) s!"{path}.returns"
    | none => pure none
  let discriminator ← (resolve .instruction ix.name ix.discriminator : Except DerivationError _)
  return ⟨ix.name, discriminator, args, returns⟩

/-- The layouts of a document, and the entries of its instructions. -/
def derive (doc : Document) : Except DerivationError (LayoutSet × List InstructionEntry) :=
  let registry := Registry.ofTypes doc.types
  Derivation.result do
    registry.definitions
    let instructions ← doc.instructions.mapM (instructionEntry registry)
    return (← finishedLayouts, instructions)

/-- The entry of an account or an event. It needs a definition without generics. -/
def dataEntry (layouts : LayoutSet) (kind : EntityKind) (e : Entity) :
    Except DerivationError DataEntry := do
  if layouts.contains e.name then
    return ⟨e.name, ← resolve kind e.name e.discriminator, .defined e.name⟩
  else throw (.genericEntity kind e.name)

/-- The program of a document: check it, derive its layouts, resolve its discriminators. -/
def ofDocument (doc : Document) : Except Failure Program := do
  doc.validate.mapError .invalid
  let (layouts, instructions) ← (derive doc).mapError .derivation
  let accounts ← (doc.accounts.mapM (dataEntry layouts .account)).mapError .derivation
  let events ← (doc.events.mapM (dataEntry layouts .event)).mapError .derivation
  return ⟨doc, layouts, accounts, events, instructions⟩

def ofText (text : String) : Except Failure Program := do
  ofDocument (← (Document.ofText text).mapError .source)

end Program

end WireSchema
