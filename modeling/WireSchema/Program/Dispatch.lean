import WireSchema.Program.Address
import WireSchema.Program.Basic

/-!
# Writing and reading the data of a program

Data starts with a discriminator. It is read either as what the caller names,
or as what the discriminator says: accounts come first, then events, then
instructions. Accounts and events may be followed by padding, instructions not.
-/

namespace WireSchema

set_option autoImplicit false

open Schema

/-- What some data was recognised as. -/
inductive Identified where
  | account (entry : DataEntry)
  | event (entry : DataEntry)
  | instruction (entry : InstructionEntry)

def Identified.kind : Identified → EntityKind
  | .account _ => .account
  | .event _ => .event
  | .instruction _ => .instruction

def Identified.name : Identified → String
  | .account entry => entry.name
  | .event entry => entry.name
  | .instruction entry => entry.name

namespace Program

def account (p : Program) (name : String) : Except CodecError DataEntry :=
  match p.accounts.find? (·.name = name) with
  | some entry => .ok entry
  | none => .error (.unknownEntity "account" name)

def event (p : Program) (name : String) : Except CodecError DataEntry :=
  match p.events.find? (·.name = name) with
  | some entry => .ok entry
  | none => .error (.unknownEntity "event" name)

def instruction (p : Program) (name : String) : Except CodecError InstructionEntry :=
  match p.instructions.find? (·.name = name) with
  | some entry => .ok entry
  | none => .error (.unknownEntity "instruction" name)

def encodeEntry (p : Program) (entry : DataEntry) (value : Value) : Except CodecError (List UInt8) :=
  p.layouts.encodePrefixed entry.discriminator entry.codec value

def decodeEntry (p : Program) (entry : DataEntry) (data : List UInt8) : Except CodecError Value :=
  p.layouts.decodePrefixed entry.discriminator entry.codec data false

def encodeAccount (p : Program) (name : String) (value : Value) : Except CodecError (List UInt8) := do
  p.encodeEntry (← p.account name) value

def decodeAccount (p : Program) (name : String) (data : List UInt8) : Except CodecError Value := do
  p.decodeEntry (← p.account name) data

def encodeEvent (p : Program) (name : String) (value : Value) : Except CodecError (List UInt8) := do
  p.encodeEntry (← p.event name) value

def decodeEvent (p : Program) (name : String) (data : List UInt8) : Except CodecError Value := do
  p.decodeEntry (← p.event name) data

/-- The discriminator and the arguments in their order. -/
def encodeInstruction (p : Program) (name : String) (args : List (String × Value)) :
    Except CodecError (List UInt8) := do
  let entry ← p.instruction name
  Encoder.bytes do
    Encoder.emit entry.discriminator.toList
    p.layouts.encodeFields entry.args args

/-- The arguments as a struct; they must take all of the data behind the discriminator. -/
def decodeArgs (p : Program) (entry : InstructionEntry) (data : List UInt8) :
    Except CodecError Value :=
  Prod.fst <$> Decoder.runOn (do
    Reader.discriminator entry.discriminator
    let args ← p.layouts.decodeFields entry.args
    Reader.finished
    return .struct args) data

def decodeInstruction (p : Program) (name : String) (data : List UInt8) : Except CodecError Value := do
  p.decodeArgs (← p.instruction name) data

/-- What an instruction returned. There is no discriminator before it. -/
def decodeReturn (p : Program) (name : String) (data : List UInt8) : Except CodecError Value := do
  match (← p.instruction name).returns with
  | some codec => p.layouts.decode codec data
  | none => throw (.typeMismatch s!"return type of `{name}`" "no return type")

/-- The first entry whose discriminator is `d`. -/
def withDiscriminator? (p : Program) (d : Discriminator) : Option Identified :=
  ((p.accounts.find? (·.discriminator = d)).map .account).or
    (((p.events.find? (·.discriminator = d)).map .event).or
      ((p.instructions.find? (·.discriminator = d)).map .instruction))

/-- What the first eight bytes of some data say it is. -/
def identify (p : Program) (data : List UInt8) : Except CodecError Identified :=
  match Discriminator.ofBytes? (data.take 8) with
  | none => .error (.unexpectedEnd 8 data.length)
  | some d =>
    match p.withDiscriminator? d with
    | some identified => .ok identified
    | none => .error (.unknownDiscriminator "account, event or instruction" d)

/-- Recognise some data and read it. -/
def decodeAny (p : Program) (data : List UInt8) : Except CodecError (Identified × Value) := do
  let identified ← p.identify data
  match identified with
  | .account entry | .event entry => return (identified, ← p.decodeEntry entry data)
  | .instruction entry => return (identified, ← p.decodeArgs entry data)

/-- The value of the constant with a name. -/
def constant (p : Program) (name : String) : Except Failure Value :=
  match p.document.constants.find? (·.name = name) with
  | some c => (constantValue c).mapError .derivation
  | none => .error (.codec (.unknownEntity "constant" name))

/-- The address of the document of the program with a key, as text from text. -/
def addressOf (programId : String) : Except Failure String :=
  match Bytes.key? programId with
  | none => .error (.programId programId)
  | some key =>
    match documentAddress key with
    | .ok address => .ok (Bytes.base58 address)
    | .error error => .error (.programId error.message)

end Program

end WireSchema
