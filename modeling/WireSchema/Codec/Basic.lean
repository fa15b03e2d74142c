import WireSchema.Keyed
import WireSchema.Schema.Ty

/-!
# Codecs and layouts

A codec says how the values of one place are written as bytes. Where a place
has a defined type it only holds a key; the layout under that key is kept in a
set, so that types may refer to themselves.
-/

namespace WireSchema

set_option autoImplicit false

open Schema

inductive Codec where
  | prim (p : Primitive)
  | option (tag : OptionTag) (inner : Codec)
  | vec (inner : Codec)
  | array (inner : Codec) (length : Nat)
  | defined (key : String)
deriving DecidableEq, Repr

def Codec.text : Codec → String
  | .prim p => p.keyword
  | .option tag inner => s!"{tag.label}<{inner.text}>"
  | .vec inner => s!"Vec<{inner.text}>"
  | .array inner length => s!"[{inner.text}; {length}]"
  | .defined key => key

structure FieldCodec where
  name : String
  codec : Codec
deriving DecidableEq, Repr

structure VariantCodec where
  name : String
  fields : Option (List FieldCodec)
deriving DecidableEq, Repr

/-- How the values of a defined type are written. An enumeration starts with the index of the variant. -/
inductive Layout where
  | struct (fields : List FieldCodec)
  | simpleEnum (names : List String)
  | complexEnum (variants : List VariantCodec)
  | aliasOf (codec : Codec)
deriving DecidableEq, Repr

/-- Layouts by key, in ascending order of the keys. -/
structure LayoutSet where
  entries : List (String × Layout)
deriving DecidableEq, Repr

namespace LayoutSet

def empty : LayoutSet := ⟨[]⟩

def get? (set : LayoutSet) (key : String) : Option Layout :=
  set.entries.lookup key

def contains (set : LayoutSet) (key : String) : Bool :=
  (set.get? key).isSome

def insert (set : LayoutSet) (key : String) (layout : Layout) : LayoutSet :=
  ⟨Keyed.insert key layout set.entries⟩

def keys (set : LayoutSet) : List String :=
  set.entries.map Prod.fst

def length (set : LayoutSet) : Nat :=
  set.entries.length

@[simp] theorem get?_insert_self (set : LayoutSet) (key : String) (layout : Layout) :
    (set.insert key layout).get? key = some layout :=
  Keyed.lookup_insert_self key layout set.entries

theorem get?_insert_of_ne (set : LayoutSet) {key other : String} (h : other ≠ key)
    (layout : Layout) : (set.insert key layout).get? other = set.get? other :=
  Keyed.lookup_insert_of_ne h layout set.entries

end LayoutSet

end WireSchema
