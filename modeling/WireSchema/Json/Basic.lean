import WireSchema.Keyed

/-!
# JSON values

Numbers come in two forms: an integer between `-2^63` and `2^64 - 1`, and the
bit pattern of a double. The entries of an object are kept sorted by key; that
they are is a property of how objects are built, not of the type.
-/

namespace WireSchema

set_option autoImplicit false

inductive Json where
  | null
  | bool (value : Bool)
  | int (value : Int)
  | float (bits : UInt64)
  | str (text : String)
  | arr (items : List Json)
  | obj (entries : List (String × Json))
deriving BEq, Repr, Inhabited

namespace Json

/-- An object with the given entries; of two with one key the later counts. -/
def ofEntries (entries : List (String × Json)) : Json :=
  .obj (Keyed.ofList entries)

/-- The value under a key. What is no object has no keys. -/
def get? (json : Json) (key : String) : Option Json :=
  match json with
  | .obj entries => entries.lookup key
  | _ => none

/-- The integer of a number that is one and is not negative. -/
def natural? : Json → Option Nat
  | .int n => if 0 ≤ n then some n.toNat else none
  | _ => none

theorem sizeOf_lt_of_lookup {entries : List (String × Json)} {key : String} {value : Json}
    (h : entries.lookup key = some value) : sizeOf value < sizeOf entries := by
  induction entries with
  | nil => simp at h
  | cons entry rest ih =>
    obtain ⟨k, v⟩ := entry
    rw [List.lookup_cons] at h
    split at h
    · obtain rfl := Option.some.inj h
      simp only [List.cons.sizeOf_spec, Prod.mk.sizeOf_spec]
      omega
    · have := ih h
      simp only [List.cons.sizeOf_spec]
      omega

theorem sizeOf_lt_of_get? {json value : Json} {key : String} (h : json.get? key = some value) :
    sizeOf value < sizeOf json := by
  cases json with
  | obj entries =>
    have := sizeOf_lt_of_lookup (show entries.lookup key = some value from h)
    simp only [obj.sizeOf_spec]
    omega
  | _ => simp [get?] at h

end Json

end WireSchema
