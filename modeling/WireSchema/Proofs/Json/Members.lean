import Mathlib.Data.List.Basic
import WireSchema.Json.Basic
import WireSchema.Proofs.Entries

/-!
# Objects written member by member

An object is written as the list of its members, some of which may be left out.
As long as no key is repeated, what is read under a key is what was written
there. Values are plain if a text can stand for them; numbers with a fraction
are not looked at.
-/

namespace WireSchema.Json

set_option autoImplicit false

/-- Integers of 64 bits, and objects with their entries in order. -/
inductive Plain : Json → Prop
  | null : Plain .null
  | bool (value : Bool) : Plain (.bool value)
  | int {n : Int} : -(Nat.pow 2 63 : Nat) ≤ n → n < (Nat.pow 2 64 : Nat) → Plain (.int n)
  | str (text : String) : Plain (.str text)
  | arr {items : List Json} : (∀ item ∈ items, Plain item) → Plain (.arr items)
  | obj {entries : List (String × Json)} : Keyed.Sorted entries → (∀ entry ∈ entries, Plain entry.2) →
      Plain (.obj entries)

/-- A member of an object, or nothing where it is left out. -/
abbrev Member : Type := String × Option Json

def ofMembers (members : List Member) : Json :=
  ofEntries (members.filterMap fun (key, value) => value.map fun value => (key, value))

/-- A value, left out if it is what a reader takes for granted; in full it is written all the same. -/
def written (full omissible : Bool) (value : Json) : Option Json :=
  if full || !omissible then some value else none

theorem eq_of_written {full omissible : Bool} {value other : Json} (h : written full omissible value = some other) :
    other = value := by
  unfold written at h
  split at h
  · exact (Option.some.inj h).symm
  · cases h

theorem omissible_of_written {full omissible : Bool} {value : Json} (h : written full omissible value = none) :
    omissible = true := by
  unfold written at h
  split at h
  · cases h
  · next hshort =>
    have hboth : full = false ∧ omissible = true := by simpa using hshort
    exact hboth.2

def orNull {α : Type} (write : α → Json) : Option α → Json
  | none => .null
  | some a => write a

/-- A member that is plain if it is written at all. -/
def PlainMember (member : Member) : Prop :=
  ∀ value ∈ member.2, value.Plain

section Members

variable {members : List Member}

theorem plain_some {key : String} {value : Json} (h : value.Plain) : PlainMember (key, some value) := by
  intro _ hvalue
  cases hvalue
  exact h

theorem plain_written {key : String} {value : Json} {full omissible : Bool} (h : value.Plain) :
    PlainMember (key, written full omissible value) := by
  intro _ hvalue
  dsimp only [written] at hvalue
  split at hvalue
  · cases hvalue
    exact h
  · cases hvalue

theorem keys_sublist : ((members.filterMap fun (key, value) => value.map fun value => (key, value)).map
    Prod.fst).Sublist (members.map Prod.fst) := by
  induction members with
  | nil => exact List.Sublist.refl _
  | cons first rest ih =>
    obtain ⟨key, _ | value⟩ := first
    · exact ih.cons key
    · exact ih.cons_cons key

theorem get?_ofMembers (h : (members.map Prod.fst).Nodup) (key : String) :
    (ofMembers members).get? key = (members.lookup key).join := by
  have hlookup : (members.filterMap fun (key, value) => value.map fun value => (key, value)).lookup key
      = (members.lookup key).join := by
    induction members with
    | nil => rfl
    | cons first rest ih =>
      obtain ⟨hfirst, hrest⟩ := List.nodup_cons.mp h
      obtain ⟨name, value⟩ := first
      by_cases hkey : key = name
      · subst hkey
        rw [List.lookup_cons_self]
        cases value with
        | none => exact Keyed.lookup_of_notMem fun hmem => hfirst (keys_sublist.subset hmem)
        | some value => exact List.lookup_cons_self
      · have hne : (key == name) = false := by simpa using hkey
        cases value with
        | none =>
          rw [List.lookup_cons, hne]
          exact ih hrest
        | some value =>
          rw [List.lookup_cons, hne, ← ih hrest, List.filterMap_cons]
          exact (List.lookup_cons ..).trans (by rw [hne])
  exact (Keyed.lookup_ofList (h.sublist keys_sublist)).trans hlookup

theorem plain_ofMembers (h : members.Forall PlainMember) : (ofMembers members).Plain := by
  refine .obj (Keyed.sorted_ofList _) fun entry hentry => ?_
  obtain ⟨⟨key, value⟩, hmember, hvalue⟩ := List.mem_filterMap.mp (Keyed.mem_ofList hentry)
  obtain ⟨value, rfl, rfl⟩ := Option.map_eq_some_iff.mp hvalue
  exact List.forall_iff_forall_mem.mp h _ hmember value rfl

theorem plain_orNull {α : Type} {write : α → Json} {a? : Option α} (h : ∀ a ∈ a?, (write a).Plain) :
    (orNull write a?).Plain := by
  cases a? with
  | none => exact .null
  | some a => exact h a rfl

theorem plain_map {α : Type} {write : α → Json} {items : List α} (h : ∀ a ∈ items, (write a).Plain) :
    (Json.arr (items.map write)).Plain :=
  .arr (List.forall_mem_map.mpr h)

end Members

end WireSchema.Json
