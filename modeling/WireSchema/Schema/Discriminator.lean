import WireSchema.Bytes.Hex
import WireSchema.Bytes.Sha256
import WireSchema.Text.Utf8
import WireSchema.Text.Words

/-!
# Discriminators

Eight bytes in front of the data of an account, an event or an instruction that
tell what it is. Where a document gives none they are the first bytes of a
hash over a namespace and the name. That different names have different
discriminators is not claimed.
-/

namespace WireSchema.Schema

set_option autoImplicit false

inductive EntityKind where
  | account
  | event
  | instruction
deriving DecidableEq, Repr

def EntityKind.label : EntityKind → String
  | .account => "account"
  | .event => "event"
  | .instruction => "instruction"

/-- What stands before the name when it is hashed. -/
def EntityKind.namespaceName : EntityKind → String
  | .account => "account"
  | .event => "event"
  | .instruction => "global"

abbrev Discriminator : Type := Vector UInt8 8

namespace Discriminator

def toHex (d : Discriminator) : String :=
  Bytes.hex d.toList

/-- Exactly eight bytes as a discriminator. -/
def ofBytes? (bytes : List UInt8) : Option Discriminator :=
  if h : bytes.length = 8 then some ⟨bytes.toArray, List.size_toArray.trans h⟩ else none

@[simp] theorem ofBytes?_toList (d : Discriminator) : ofBytes? d.toList = some d := by
  obtain ⟨⟨bytes⟩, h⟩ := d
  have : bytes.length = 8 := h
  simp [ofBytes?, Vector.toList, this]

theorem toList_of_ofBytes? {bytes : List UInt8} {d : Discriminator} (h : ofBytes? bytes = some d) :
    d.toList = bytes := by
  unfold ofBytes? at h
  split at h
  · obtain rfl := Option.some.inj h
    simp
  · simp at h

/-- The text that is hashed. -/
def preimage (namespaceName name : String) : String :=
  s!"{namespaceName}:{name}"

/-- The first eight bytes of the hash of a namespace and a name. -/
def ofName (namespaceName name : String) : Discriminator :=
  ⟨((Bytes.sha256 (Text.utf8 (preimage namespaceName name))).take 8).toArray, by simp⟩

/-- The name of an instruction is hashed in snake case, any other as it stands. -/
def hashedName (kind : EntityKind) (name : String) : String :=
  match kind with
  | .instruction => Text.snakeCase name
  | .account | .event => name

def compute (kind : EntityKind) (name : String) : Discriminator :=
  ofName kind.namespaceName (hashedName kind name)

end Discriminator

/-- A supplied discriminator of the wrong length. -/
structure DiscriminatorIssue where
  kind : EntityKind
  name : String
  length : Nat
deriving DecidableEq, Repr

def DiscriminatorIssue.message (issue : DiscriminatorIssue) : String :=
  s!"{issue.kind.label} `{issue.name}` has a {issue.length}-byte discriminator (expected 8)"

/-- The supplied discriminator, or the computed one in place of an empty one. -/
def Discriminator.resolve (kind : EntityKind) (name : String) (supplied : List UInt8) :
    Except DiscriminatorIssue Discriminator :=
  if supplied = [] then .ok (compute kind name)
  else
    match ofBytes? supplied with
    | some d => .ok d
    | none => .error ⟨kind, name, supplied.length⟩

/-- Discriminator bytes as a listing shows them. -/
def spacedHex (bytes : List UInt8) : String :=
  if bytes = [] then "(none)"
  else "[" ++ " ".intercalate (bytes.map fun b => Bytes.hex [b]) ++ "]"

end WireSchema.Schema
