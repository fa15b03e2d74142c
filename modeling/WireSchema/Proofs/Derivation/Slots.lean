import WireSchema.Proofs.Derivation.Programs
import WireSchema.Proofs.Schema.Places
import WireSchema.Proofs.Schema.Validation

/-!
# What stands at the places of a document

What holds of every place that a walk comes to holds inside of every type that a
derivation may be asked for: those in definitions, and those of the arguments
and the results of instructions. An accepted document has a type at each place,
and a definition for each name. The types of constants are derived from nothing.
-/

namespace WireSchema

set_option autoImplicit false

open Schema

namespace Schema

variable {P : Option Ty → Prop} {path : Path} {places : List Place}

/-- `P` holds of what stands at each of these places. -/
def AllSlots (P : Option Ty → Prop) (places : List Place) : Prop := ∀ place ∈ places, P place.2

/-- `P` holds of the type and of everything that a walk comes to inside of it. -/
def Ty.Everywhere (P : Option Ty → Prop) (ty : Ty) : Prop := ∃ path, AllSlots P (ty.places path)

theorem AllSlots.subset {more : List Place} (h : AllSlots P places) (hsub : more ⊆ places) : AllSlots P more :=
  fun place hplace => h place (hsub hplace)

theorem Ty.mem_places (path : Path) (ty : Ty) : (path, some ty) ∈ ty.places path := by
  cases ty <;> exact List.mem_cons_self

theorem allSlots_slotPlaces {inner : Option Ty} (h : AllSlots P (slotPlaces path inner)) :
    P inner ∧ ∀ ty ∈ inner, ty.Everywhere P := by
  cases inner with
  | none => exact ⟨h _ (List.mem_singleton_self _), fun _ hty => nomatch hty⟩
  | some ty =>
    refine ⟨h _ (ty.mem_places path), fun other hty => ?_⟩
    cases hty
    exact ⟨path, h⟩

theorem argPlaces_subset {args : List GenericArg} {ty : Ty} (h : GenericArg.type ty ∈ args) (i : Nat) :
    ∃ inner, ty.places inner ⊆ argPlaces path i args := by
  induction args generalizing i with
  | nil => cases h
  | cons arg rest ih =>
    rcases List.mem_cons.mp h with rfl | h
    · exact ⟨path.item "generics" i, List.subset_append_left _ _⟩
    · obtain ⟨inner, hinner⟩ := ih h (i + 1)
      cases arg with
      | type first => exact ⟨inner, List.subset_append_of_subset_right _ hinner⟩
      | const value => exact ⟨inner, hinner⟩

namespace Ty.Everywhere

variable {ty : Ty} {inner : Option Ty}

theorem self (h : ty.Everywhere P) : P (some ty) := by
  obtain ⟨path, h⟩ := h
  exact h _ (ty.mem_places path)

theorem option {tag : OptionTag} (h : (Ty.option tag inner).Everywhere P) :
    P inner ∧ ∀ ty ∈ inner, ty.Everywhere P := by
  obtain ⟨path, h⟩ := h
  exact allSlots_slotPlaces (List.forall_mem_cons.mp h).2

theorem vec (h : (Ty.vec inner).Everywhere P) : P inner ∧ ∀ ty ∈ inner, ty.Everywhere P := by
  obtain ⟨path, h⟩ := h
  exact allSlots_slotPlaces (List.forall_mem_cons.mp h).2

theorem array {length : ArrayLength} (h : (Ty.array inner length).Everywhere P) :
    P inner ∧ ∀ ty ∈ inner, ty.Everywhere P := by
  obtain ⟨path, h⟩ := h
  exact allSlots_slotPlaces (List.forall_mem_cons.mp h).2

theorem arg {name : String} {args : List GenericArg} (h : (Ty.defined name args).Everywhere P)
    (hty : GenericArg.type ty ∈ args) : ty.Everywhere P := by
  obtain ⟨path, h⟩ := h
  obtain ⟨inner, hinner⟩ := argPlaces_subset hty 0
  exact ⟨inner, (show AllSlots P (argPlaces path 0 args) from (List.forall_mem_cons.mp h).2).subset hinner⟩

theorem part (h : ty.Everywhere P) {part : Ty} (hpart : part ∈ ty.parts) : part.Everywhere P := by
  cases ty with
  | prim p => cases hpart
  | option tag inner => exact h.option.2 part (Option.mem_toList.mp hpart)
  | vec inner => exact h.vec.2 part (Option.mem_toList.mp hpart)
  | array inner length => exact h.array.2 part (Option.mem_toList.mp hpart)
  | defined name args => exact h.arg (mem_types_of_args.mp hpart)
  | generic name => cases hpart

end Ty.Everywhere

theorem eachPlaces_subset {α : Type} {of : Nat → α → List Place} {items : List α} {item : α}
    (h : item ∈ items) (i : Nat) : ∃ j, of j item ⊆ eachPlaces of i items := by
  induction items generalizing i with
  | nil => cases h
  | cons first rest ih =>
    rcases List.mem_cons.mp h with rfl | h
    · exact ⟨i, List.subset_append_left _ _⟩
    · obtain ⟨j, hj⟩ := ih h (i + 1)
      exact ⟨j, List.subset_append_of_subset_right _ hj⟩

theorem AllSlots.each {α : Type} {of : Nat → α → List Place} {items : List α} {i : Nat} {item : α}
    (h : AllSlots P (eachPlaces of i items)) (hitem : item ∈ items) : ∃ j, AllSlots P (of j item) := by
  obtain ⟨j, hj⟩ := eachPlaces_subset hitem i
  exact ⟨j, h.subset hj⟩

theorem Fields.everywhere {fields : Fields} (h : AllSlots P (fields.places path)) :
    ∀ entry ∈ fields.entries, entry.2.Everywhere P := by
  intro entry hentry
  cases fields with
  | named fields =>
    obtain ⟨f, hf, rfl⟩ := List.mem_map.mp hentry
    obtain ⟨j, hj⟩ := h.each hf
    exact ⟨_, hj⟩
  | tuple types =>
    obtain ⟨⟨ty, i⟩, hty, rfl⟩ := List.mem_map.mp hentry
    obtain ⟨j, hj⟩ := h.each (List.fst_mem_of_mem_zipIdx hty)
    exact ⟨_, hj⟩

theorem Body.everywhere {body : Body} (h : AllSlots P (body.places path)) :
    ∀ ty ∈ body.types, ty.Everywhere P := by
  intro ty hty
  cases body with
  | struct fields =>
    cases fields with
    | none => cases hty
    | some fields =>
      obtain ⟨entry, hentry, rfl⟩ := List.mem_map.mp hty
      exact Fields.everywhere h entry hentry
  | enum variants =>
    obtain ⟨⟨name, fields⟩, hv, hty⟩ := List.mem_flatMap.mp hty
    obtain ⟨j, hj⟩ := h.each hv
    cases fields with
    | none => cases hty
    | some fields =>
      obtain ⟨entry, hentry, rfl⟩ := List.mem_map.mp hty
      exact Fields.everywhere hj entry hentry
  | aliasOf other =>
    obtain rfl := List.mem_singleton.mp hty
    exact ⟨_, h⟩

theorem Instruction.everywhere {ix : Instruction} (h : AllSlots P (ix.places path)) :
    ∀ ty ∈ ix.types, ty.Everywhere P := by
  obtain ⟨hargs, hreturns⟩ := List.forall_mem_append.mp h
  intro ty hty
  rcases List.mem_append.mp hty with hty | hty
  · obtain ⟨f, hf, rfl⟩ := List.mem_map.mp hty
    obtain ⟨j, hj⟩ := AllSlots.each hargs hf
    exact ⟨_, hj⟩
  · rw [Option.mem_toList.mp hty] at hreturns
    exact ⟨_, hreturns⟩

variable {doc : Document}

theorem Document.everywhere (h : AllSlots P doc.places) :
    (∀ ix ∈ doc.instructions, ∀ ty ∈ ix.types, ty.Everywhere P)
      ∧ ∀ d ∈ doc.types, ∀ ty ∈ d.body.types, ty.Everywhere P := by
  rw [Document.places_eq] at h
  obtain ⟨hinstructions, h⟩ := List.forall_mem_append.mp h
  obtain ⟨htypes, -⟩ := List.forall_mem_append.mp h
  constructor
  · intro ix hix
    obtain ⟨j, hj⟩ := AllSlots.each hinstructions hix
    exact Instruction.everywhere hj
  · intro d hd
    obtain ⟨j, hj⟩ := AllSlots.each htypes hd
    exact Body.everywhere hj

end Schema

/-- There is a type, and if it is a name there is a definition for it. -/
def Registry.Fills (registry : Registry) (slot : Option Ty) : Prop :=
  slot ≠ none ∧ ∀ name, definedName? slot = some name → ∃ d, registry.get? name = some d

namespace Schema.Document

variable {doc : Document}

theorem exists_definition_of_wanted (h : doc.validate = .ok ()) {name : String} (hname : name ∈ doc.wantedNames) :
    ∃ d, (Registry.ofTypes doc.types).get? name = some d := by
  have hnames : (sortedNames doc.wantedNames).filter (fun name => !(doc.types.map TypeDef.name).contains name)
      = [] := congrArg Problems.notResolved (problems_of_validate h)
  have hdefined := List.filter_eq_nil_iff.mp hnames name (mem_sortedNames hname)
  rw [Registry.get?_ofTypes]
  apply Option.isSome_iff_exists.mp
  rw [List.find?_isSome]
  simpa using hdefined

theorem fills_of_validate (h : doc.validate = .ok ()) :
    AllSlots (Registry.ofTypes doc.types).Fills doc.places := by
  intro place hplace
  have hmissing : doc.places.filterMap (fun place => if place.2.isNone then some place.1.text else none) = [] :=
    congrArg Problems.missingTypes (problems_of_validate h)
  constructor
  · have hslot := List.filterMap_eq_nil_iff.mp hmissing place hplace
    intro hnone
    simp [hnone] at hslot
  · intro name hname
    apply exists_definition_of_wanted h
    refine List.mem_append_left _ (List.mem_append_left _ ?_)
    exact List.mem_filterMap.mpr ⟨place, hplace, hname⟩

end Schema.Document

end WireSchema
