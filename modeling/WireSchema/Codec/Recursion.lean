import WireSchema.Codec.Basic

/-!
# Types that contain themselves

A type contains another directly if it has it as a field, in a payload, as what
it is an alias of, or as the element of an array in one of these places. What
stands inside an optional value or a vector is not contained directly: it may
be absent. A search through the direct parts finds a type that is one of its
own; `Proofs.Codec.Cycles` shows that it finds one if there is any, and no others.
-/

namespace WireSchema

set_option autoImplicit false

/-- The key that every value of a codec contains, if there is one. -/
def Codec.directKey? : Codec → Option String
  | .defined key => some key
  | .array inner _ => inner.directKey?
  | _ => none

def directKeys (fields : List FieldCodec) : List String :=
  fields.filterMap fun f => f.codec.directKey?

def VariantCodec.directKeys (v : VariantCodec) : List String :=
  WireSchema.directKeys (v.fields.getD [])

def Layout.directKeys : Layout → List String
  | .struct fields => WireSchema.directKeys fields
  | .complexEnum variants => variants.flatMap VariantCodec.directKeys
  | .aliasOf codec => codec.directKey?.toList
  | .simpleEnum _ => []

namespace LayoutSet

/-- The keys that the layout under a key contains directly. -/
def directKeys (set : LayoutSet) (key : String) : List String :=
  match set.get? key with
  | some layout => layout.directKeys
  | none => []

/-- What a search has found: the keys known to be harmless, or one that contains itself. -/
abbrev Search : Type := Except String (List String)

/-- Search each of some keys in turn. -/
def searchAll (search : List String → String → Search) (done : List String) : List String → Search
  | [] => .ok done
  | key :: rest => do
    let done ← search done key
    searchAll search done rest

/-- Search from one key. `path` holds the keys on the way to it, and its length is bounded by `fuel`. -/
def search (set : LayoutSet) : Nat → List String → List String → String → Search
  | 0, _, _, key => .error key
  | fuel + 1, path, done, key =>
    if done.contains key then .ok done
    else if path.contains key then .error key
    else do
      let done ← searchAll (set.search fuel (key :: path)) done (set.directKeys key)
      return key :: done

/-- A key whose layout contains itself directly, if the search finds one. -/
def selfContaining? (set : LayoutSet) : Option String :=
  match searchAll (set.search (set.length + 2) []) [] set.keys with
  | .ok _ => none
  | .error key => some key

end LayoutSet

end WireSchema
