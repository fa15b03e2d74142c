import WireSchema.Bytes.LittleEndian
import WireSchema.Codec.Error
import WireSchema.Codec.Size

/-!
# Reading bytes from the front

A reader is the unread rest of some data and how many bytes were read before.
What fails for want of bytes reads nothing.
-/

namespace WireSchema

set_option autoImplicit false

open Schema

structure Reader where
  index : Nat
  rest : List UInt8
deriving DecidableEq, Repr

/-- A reading step: it may fail, and moves the reader either way. -/
abbrev Decoder (α : Type) : Type := ExceptT CodecError (StateM Reader) α

namespace Reader

def ofBytes (data : List UInt8) : Reader :=
  ⟨0, data⟩

def remaining (r : Reader) : Nat :=
  r.rest.length

def isEmpty (r : Reader) : Bool :=
  r.rest.isEmpty

/-- The first `count` items and the rest, if there are that many. -/
def split? {α : Type} : Nat → List α → Option (List α × List α)
  | 0, rest => some ([], rest)
  | _ + 1, [] => none
  | count + 1, item :: rest => (split? count rest).map fun (front, rest) => (item :: front, rest)

theorem split?_eq {α : Type} (count : Nat) (items : List α) :
    split? count items
      = if count ≤ items.length then some (items.take count, items.drop count) else none := by
  induction count generalizing items with
  | zero => simp [split?]
  | succ count ih =>
    cases items with
    | nil => simp [split?]
    | cons item rest =>
      simp only [split?, ih, List.length_cons, Nat.add_le_add_iff_right]
      split <;> simp_all

/-- Exactly `count` bytes. -/
def bytes (count : Nat) : Decoder (List UInt8) := do
  let r ← get
  match split? count r.rest with
  | some (front, rest) =>
    set (⟨r.index + count, rest⟩ : Reader)
    return front
  | none => throw (.unexpectedEnd count r.remaining)

/-- The number in the next `size` bytes, least significant first. -/
def number (size : Nat) : Decoder Nat := do
  return Bytes.leNat (← bytes size)

def bool : Decoder Bool := do
  match ← number 1 with
  | 0 => return false
  | 1 => return true
  | n => throw (.invalidBool (UInt8.ofNat n))

/-- Refuse a count of items, each at least `least` bytes long, that the rest cannot hold. -/
def ensure (count least : Nat) : Decoder Unit := do
  let needed := saturated (count * least)
  let r ← get
  if r.remaining < needed then
    throw (.unexpectedEnd needed r.remaining)

/-- A count in four bytes, refused early when the rest cannot hold that many items. -/
def count (least : Nat) : Decoder Nat := do
  let n ← number 4
  ensure n least
  return n

/-- A text behind the count of its bytes. -/
def string : Decoder String := do
  let data ← bytes (← count 1)
  match Text.ofUtf8? data with
  | some text => return text
  | none => throw .invalidUtf8

/-- Eight bytes that must be the expected ones. -/
def discriminator (expected : Discriminator) : Decoder Unit := do
  let data ← bytes 8
  match Discriminator.ofBytes? data with
  | some actual =>
    if actual = expected then return ()
    else throw (.discriminatorMismatch expected actual)
  | none => throw (.unexpectedEnd 8 data.length)

end Reader

/-- Run a decoder on all of some data, and tell what it left. -/
def Decoder.runOn {α : Type} (decoder : Decoder α) (data : List UInt8) : Except CodecError (α × Reader) :=
  match decoder.run (Reader.ofBytes data) with
  | (.ok value, r) => .ok (value, r)
  | (.error error, _) => .error error

end WireSchema
