import WireSchema.Schema.Ty

/-!
# Induction on type expressions

What holds of a type if it holds of the type inside of it, or of its type
arguments, holds of every type. Where the shape of the type does not matter, its
parts are taken together.
-/

namespace WireSchema.Schema

set_option autoImplicit false

@[elab_as_elim]
theorem Ty.induction {motive : Ty → Prop}
    (prim : ∀ p, motive (.prim p))
    (option : ∀ tag inner, (∀ ty ∈ inner, motive ty) → motive (.option tag inner))
    (vec : ∀ inner, (∀ ty ∈ inner, motive ty) → motive (.vec inner))
    (array : ∀ inner length, (∀ ty ∈ inner, motive ty) → motive (.array inner length))
    (defined : ∀ name args, (∀ ty, GenericArg.type ty ∈ args → motive ty) → motive (.defined name args))
    (generic : ∀ name, motive (.generic name)) :
    ∀ ty, motive ty
  | .prim p => prim p
  | .option tag none => option tag none fun _ h => nomatch h
  | .option tag (some inner) => option tag (some inner) fun ty h =>
      have : ty = inner := (Option.some.inj h).symm
      this ▸ Ty.induction prim option vec array defined generic inner
  | .vec none => vec none fun _ h => nomatch h
  | .vec (some inner) => vec (some inner) fun ty h =>
      have : ty = inner := (Option.some.inj h).symm
      this ▸ Ty.induction prim option vec array defined generic inner
  | .array none length => array none length fun _ h => nomatch h
  | .array (some inner) length => array (some inner) length fun ty h =>
      have : ty = inner := (Option.some.inj h).symm
      this ▸ Ty.induction prim option vec array defined generic inner
  | .defined name args => defined name args fun ty _ =>
      Ty.induction prim option vec array defined generic ty
  | .generic name => generic name
termination_by ty => sizeOf ty
decreasing_by
  all_goals simp_wf
  · omega
  · omega
  · omega
  · have := List.sizeOf_lt_of_mem ‹_›
    simp at this
    omega

def GenericArg.type? : GenericArg → Option Ty
  | .type ty => some ty
  | .const _ => none

/-- The types right inside of a type. -/
def Ty.parts : Ty → List Ty
  | .option _ inner | .vec inner | .array inner _ => inner.toList
  | .defined _ args => args.filterMap GenericArg.type?
  | .prim _ | .generic _ => []

@[simp] theorem mem_types_of_args {args : List GenericArg} {ty : Ty} :
    ty ∈ args.filterMap GenericArg.type? ↔ GenericArg.type ty ∈ args := by
  rw [List.mem_filterMap]
  constructor
  · rintro ⟨arg, harg, heq⟩
    cases arg with
    | type other =>
      cases heq
      exact harg
    | const value => cases heq
  · exact fun h => ⟨_, h, rfl⟩

theorem Ty.induction_parts {motive : Ty → Prop} (h : ∀ ty, (∀ part ∈ ty.parts, motive part) → motive ty)
    (ty : Ty) : motive ty := by
  induction ty using Ty.induction with
  | prim p => exact h _ fun _ hpart => by cases hpart
  | option tag inner ih => exact h _ fun part hpart => ih part (Option.mem_toList.mp hpart)
  | vec inner ih => exact h _ fun part hpart => ih part (Option.mem_toList.mp hpart)
  | array inner length ih => exact h _ fun part hpart => ih part (Option.mem_toList.mp hpart)
  | defined name args ih => exact h _ fun part hpart => ih part (mem_types_of_args.mp hpart)
  | generic name => exact h _ fun _ hpart => by cases hpart

end WireSchema.Schema
