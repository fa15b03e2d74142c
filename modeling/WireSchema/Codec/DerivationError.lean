import WireSchema.Schema.Discriminator

/-!
# Why a schema has no codecs
-/

namespace WireSchema

set_option autoImplicit false

open Schema

inductive DerivationError where
  | unresolvedType (path : String)
  | undefinedType (name path : String)
  | genericArrayLength (name path : String)
  | unboundGeneric (name path : String)
  | genericArity (name : String) (expected actual : Nat)
  | genericMismatch (name param : String)
  | tooManyVariants (name : String) (count : Nat)
  | recursiveType (name : String)
  | genericExpansion (name : String) (limit : Nat)
  | genericEntity (kind : EntityKind) (name : String)
  | unsupportedSerialization (name serialization : String)
  | discriminatorLength (issue : DiscriminatorIssue)
  | invalidConstant (name value : String)
deriving DecidableEq, Repr

def DerivationError.message : DerivationError → String
  | .unresolvedType path => s!"unresolved type at {path}"
  | .undefinedType name path => s!"type `{name}` referenced at {path} is not defined"
  | .genericArrayLength name path =>
    s!"array length `{name}` at {path} is generic; a concrete length is required"
  | .unboundGeneric name path => s!"generic `{name}` at {path} is not bound"
  | .genericArity name expected actual =>
    s!"type `{name}` expects {expected} generic argument(s), got {actual}"
  | .genericMismatch name param => s!"generic argument for `{param}` of `{name}` has the wrong kind"
  | .tooManyVariants name count =>
    s!"enum `{name}` has {count} variants; at most 256 fit a one-byte index"
  | .recursiveType name => s!"type `{name}` contains itself without indirection"
  | .genericExpansion name limit =>
    s!"generic type `{name}` expands past {limit} nested instantiations"
  | .genericEntity kind name =>
    s!"{kind.label} `{name}` refers to a generic type definition and has no layout"
  | .unsupportedSerialization name serialization =>
    s!"type `{name}` uses custom serialization `{serialization}`"
  | .discriminatorLength issue => issue.message
  | .invalidConstant name value => s!"constant `{name}` has invalid value `{value}` for its type"

end WireSchema
