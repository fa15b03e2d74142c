import WireSchema.Proofs.Derivation.Resolved
import WireSchema.Proofs.Schema.TyInduction
import WireSchema.Proofs.Step

/-!
# What derivations have if their instances have it

A derivation is put together of answers, errors and sequences, around the
instances that it comes to. A property that sequences have if their parts do is
shown of a derivation by going through its types, its arguments and the bodies of
its definitions, whatever the property is. That is done here once: what remains
to be shown is that instances have it. It must be a property of the run alone; what
an answer has to be for the type is not spoken of.
-/

namespace WireSchema

set_option autoImplicit false

open Schema

/-- The error is about generics or about a definition on its own, and not about a type that is missing, nor
about the limit. -/
def DerivationError.IsMisuse : DerivationError → Prop
  | .genericArrayLength _ _ | .unboundGeneric _ _ | .genericArity _ _ _ | .genericMismatch _ _
  | .tooManyVariants _ _ | .unsupportedSerialization _ _ => True
  | _ => False

/-- Nothing stands where the type inside should be. -/
inductive Schema.Ty.Lacks : Ty → Prop
  | option (tag : OptionTag) : Lacks (.option tag none)
  | vec : Lacks (.vec none)
  | array (length : ArrayLength) : Lacks (.array none length)

namespace Derivation

/-- A property of derivations that sequences have for the sake of their parts. The second part is looked at
only for what the first can answer. -/
structure Composes (K : ∀ {α : Type}, Derivation α → Prop) : Prop where
  answer : ∀ {α : Type} (a : α), K (pure a : Derivation α)
  misuse : ∀ {α : Type} {e : DerivationError}, e.IsMisuse → K (throw e : Derivation α)
  sequence : ∀ {α β : Type} {d : Derivation α} {f : α → Derivation β}, K d →
    (∀ a, (∃ s t, d.run s = (.ok a, t)) → K (f a)) → K (d >>= f)

/-- The types of `G` have their parts in `G`, and the property holds of all else that they lead to. -/
structure Covers (K : ∀ {α : Type}, Derivation α → Prop) (registry : Registry) (derive : LayoutDeriver)
    (env : Bindings) (G : Ty → Prop) : Prop where
  part : ∀ {ty part : Ty}, G ty → part ∈ ty.parts → G part
  unresolved : ∀ {ty : Ty}, G ty → ty.Lacks → ∀ path, K (throw (.unresolvedType path) : Derivation Codec)
  undefined : ∀ {name : String} {args : List GenericArg}, G (.defined name args) → registry.get? name = none →
    ∀ path, K (throw (.undefinedType name path) : Derivation Codec)
  bound : ∀ {name : String} {args : List GenericArg} {d : TypeDef}, G (.defined name args) →
    registry.get? name = some d → d.params.length = args.length →
    ∀ {path : String} {bindings : Bindings} {labels : List String} {s t : DerivationState},
      (bindArgs registry derive env path name .none [] d.params args).run s = (.ok (bindings, labels), t) →
      K (instantiate derive d bindings labels)

namespace Composes

variable {K : ∀ {α : Type}, Derivation α → Prop} (hK : Composes @K)
include hK

theorem map {α β : Type} {d : Derivation α} (hd : K d) (g : α → β) : K (do return g (← d)) :=
  hK.sequence hd fun a _ => hK.answer (g a)

section Types

variable {registry : Registry} {derive : LayoutDeriver} {env : Bindings}

theorem length (length : ArrayLength) (path : String) : K (length.resolve env path) := by
  unfold ArrayLength.resolve
  split
  · exact hK.answer _
  · split
    · exact hK.answer _
    · exact hK.misuse trivial

theorem slot {w : Codec → Codec} {inner : Option Ty} {path : String}
    (hnone : inner = none → K (throw (.unresolvedType path) : Derivation Codec))
    (h : ∀ ty ∈ inner, K (ty.derive registry derive env path)) :
    K (do return w (← deriveSlot registry derive env path inner)) := by
  cases inner with
  | none => exact hK.map (hnone rfl) w
  | some ty => exact hK.map (h ty rfl) w

theorem arguments {path : String} (name : String) {args : List GenericArg}
    (h : ∀ ty, GenericArg.type ty ∈ args → K (ty.derive registry derive env path)) (bindings : Bindings)
    (labels : List String) (params : List Param) :
    K (bindArgs registry derive env path name bindings labels params args) := by
  induction args generalizing bindings labels params with
  | nil => exact hK.answer _
  | cons arg rest ih =>
    have hrest := ih fun ty hty => h ty (List.mem_cons_of_mem _ hty)
    cases arg with
    | type ty =>
      rcases params with _ | ⟨param | ⟨param, text⟩, params⟩
      · exact hK.answer _
      · rw [bindArgs]
        exact hK.sequence (h ty List.mem_cons_self) fun codec _ => hrest _ _ _
      · rw [bindArgs]
        exact hK.misuse trivial
    | const value =>
      rcases params with _ | ⟨param | ⟨param, text⟩, params⟩
      · exact hK.answer _
      · rw [bindArgs]
        exact hK.misuse trivial
      · rw [bindArgs]
        exact hrest _ _ _

theorem type {G : Ty → Prop} (hcovers : Covers @K registry derive env G) {ty : Ty} (hG : G ty)
    (path : String) : K (ty.derive registry derive env path) := by
  induction ty using Ty.induction with
  | prim p => exact hK.answer _
  | option tag inner ih =>
    rw [Ty.derive]
    refine hK.slot ?_ fun ty hty => ih ty hty (hcovers.part hG (Option.mem_toList.mpr hty))
    rintro rfl
    exact hcovers.unresolved hG (.option tag) path
  | vec inner ih =>
    rw [Ty.derive]
    refine hK.slot ?_ fun ty hty => ih ty hty (hcovers.part hG (Option.mem_toList.mpr hty))
    rintro rfl
    exact hcovers.unresolved hG .vec path
  | array inner length ih =>
    rw [Ty.derive]
    refine hK.sequence (hK.length length path) fun n _ => hK.slot ?_ fun ty hty =>
      ih ty hty (hcovers.part hG (Option.mem_toList.mpr hty))
    rintro rfl
    exact hcovers.unresolved hG (.array length) path
  | defined name args ih =>
    rw [Ty.derive]
    cases hd : registry.get? name with
    | none => exact hcovers.undefined hG hd path
    | some d =>
      dsimp only
      by_cases hlen : d.params.length = args.length
      · simp only [hlen, ne_eq, not_true_eq_false, if_false]
        have hargs := hK.arguments name
          (fun ty hty => ih ty hty (hcovers.part hG (mem_types_of_args.mpr hty))) .none [] d.params
        refine hK.sequence hargs ?_
        rintro ⟨bindings, labels⟩ ⟨s, t, hrun⟩
        exact hcovers.bound hG hd hlen hrun
      · simp only [hlen, ne_eq, not_false_eq_true, if_true]
        exact hK.misuse trivial
  | generic name =>
    rw [Ty.derive]
    split
    · exact hK.answer _
    · exact hK.misuse trivial

end Types

section Layouts

variable {codecOf : String → Ty → Derivation Codec}

theorem fields {entries : List (String × Ty)} (h : ∀ entry ∈ entries, ∀ path, K (codecOf path entry.2))
    (path : String) : K (deriveFields codecOf path entries) := by
  induction entries with
  | nil => exact hK.answer _
  | cons entry rest ih =>
    have hrest := ih fun entry hentry => h entry (List.mem_cons_of_mem _ hentry)
    exact hK.sequence (h entry List.mem_cons_self _) fun codec _ => hK.map hrest _

theorem variants {variants : List Variant} (h : ∀ ty ∈ (Body.enum variants).types, ∀ path, K (codecOf path ty))
    (key : String) : K (deriveVariants codecOf key variants) := by
  induction variants with
  | nil => exact hK.answer _
  | cons v rest ih =>
    rw [Body.types, List.flatMap_cons] at h
    obtain ⟨hfirst, hothers⟩ := List.forall_mem_append.mp h
    have hrest := ih hothers
    obtain ⟨name, _ | fields⟩ := v
    · exact hK.map hrest _
    · have hfields := hK.fields (fun entry hentry => hfirst entry.2 (List.mem_map_of_mem hentry))
        s!"{key}::{name}"
      exact hK.sequence hfields fun codecs _ => hK.map hrest _

theorem layout {d : TypeDef} (h : ∀ ty ∈ d.body.types, ∀ path, K (codecOf path ty)) (key : String) :
    K (d.layout codecOf key) := by
  obtain ⟨name, docs, serialization, representation, params, body⟩ := d
  dsimp only at h
  unfold TypeDef.layout
  cases serialization
  case custom serialization => exact hK.misuse trivial
  all_goals
    cases body with
    | struct fields =>
      cases fields with
      | none => exact hK.answer _
      | some fields =>
        exact hK.map (hK.fields (fun entry hentry => h entry.2 (List.mem_map_of_mem hentry)) key) _
    | enum variants =>
      dsimp only
      by_cases hcount : 256 < variants.length
      · simp only [hcount, if_true]
        exact hK.misuse trivial
      · simp only [hcount, if_false]
        cases (Body.enum variants).isComplexEnum with
        | true => exact hK.map (hK.variants h key) _
        | false => exact hK.answer _
    | aliasOf ty => exact hK.map (h ty (List.mem_singleton_self ty) key) _

end Layouts

theorem definitions {registry : Registry}
    (h : ∀ d ∈ registry.defs, d.params = [] → K (instantiate registry.deriveLayout d .none [])) :
    K registry.definitions := by
  unfold Registry.definitions
  have hinstances : ∀ d ∈ registry.defs.filter (·.params.isEmpty),
      K (instantiate registry.deriveLayout d .none []) := by
    intro d hd
    obtain ⟨hmem, hparams⟩ := List.mem_filter.mp hd
    exact h d hmem (List.isEmpty_iff.mp hparams)
  generalize registry.defs.filter (·.params.isEmpty) = ds at hinstances
  induction ds with
  | nil => exact hK.answer ()
  | cons d rest ih =>
    obtain ⟨hfirst, hrest⟩ := List.forall_mem_cons.mp hinstances
    exact hK.sequence (hK.map hfirst fun _ => ()) fun _ _ => ih hrest

end Composes

end Derivation

end WireSchema
