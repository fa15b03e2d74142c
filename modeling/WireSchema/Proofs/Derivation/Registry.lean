import WireSchema.Codec.Derivation

/-!
# Registries

A registry holds the first definition of each name, in the order of the
document; which names are found does not depend on that order.
-/

namespace WireSchema

set_option autoImplicit false

open Schema

theorem find?_name_of_pairwise {ds : List TypeDef} (h : ds.Pairwise fun a b => a.name ≠ b.name)
    {d : TypeDef} (hd : d ∈ ds) : ds.find? (·.name = d.name) = some d := by
  induction ds with
  | nil => cases hd
  | cons first rest ih =>
    obtain ⟨hfirst, hrest⟩ := List.pairwise_cons.mp h
    rcases List.mem_cons.mp hd with rfl | hd
    · simp
    · simp [hfirst d hd, ih hrest hd]

namespace Registry

/-- Keep a definition unless there is one with its name. -/
def keep (ds : List TypeDef) (d : TypeDef) : List TypeDef :=
  if ds.any (·.name = d.name) then ds else d :: ds

theorem find?_foldl_keep (name : String) (types kept : List TypeDef) :
    (types.foldl keep kept).reverse.find? (·.name = name) = (kept.reverse ++ types).find? (·.name = name) := by
  induction types generalizing kept with
  | nil => simp
  | cons d rest ih =>
    rw [List.foldl_cons, ih, keep]
    by_cases hd : kept.any (·.name = d.name) = true
    · rw [if_pos hd]
      obtain ⟨e, he, hname⟩ := List.any_eq_true.mp hd
      by_cases hn : d.name = name
      · -- the earlier one of that name is found on both sides
        have hsome : (kept.reverse.find? (·.name = name)).isSome := by
          rw [List.find?_isSome]
          exact ⟨e, List.mem_reverse.mpr he, by simpa [hn] using hname⟩
        rw [List.find?_append, List.find?_append, Option.or_of_isSome hsome, Option.or_of_isSome hsome]
      · simp [List.find?_append, hn]
    · rw [if_neg hd]
      simp

theorem get?_ofTypes (types : List TypeDef) (name : String) :
    (ofTypes types).get? name = types.find? (·.name = name) :=
  find?_foldl_keep name types []

theorem pairwise_foldl_keep (types : List TypeDef) {kept : List TypeDef}
    (h : kept.Pairwise fun a b => b.name ≠ a.name) :
    (types.foldl keep kept).Pairwise fun a b => b.name ≠ a.name := by
  induction types generalizing kept with
  | nil => exact h
  | cons d rest ih =>
    rw [List.foldl_cons]
    apply ih
    unfold keep
    split
    · exact h
    · next hd =>
      refine List.pairwise_cons.mpr ⟨fun e he heq => hd ?_, h⟩
      exact List.any_eq_true.mpr ⟨e, he, by simpa using heq⟩

/-- Each name has one definition. -/
def Distinct (registry : Registry) : Prop :=
  ∀ d ∈ registry.defs, registry.get? d.name = some d

theorem distinct_ofTypes (types : List TypeDef) : (ofTypes types).Distinct := by
  intro d hd
  exact find?_name_of_pairwise (List.pairwise_reverse.mpr (pairwise_foldl_keep types .nil)) hd

theorem get?_ofTypes_of_nodup {types : List TypeDef} (h : (types.map TypeDef.name).Nodup) {d : TypeDef}
    {name : String} : (ofTypes types).get? name = some d ↔ d ∈ types ∧ d.name = name := by
  rw [get?_ofTypes]
  constructor
  · intro hd
    exact ⟨List.mem_of_find?_eq_some hd, by simpa using List.find?_some hd⟩
  · rintro ⟨hd, rfl⟩
    exact find?_name_of_pairwise (List.pairwise_map.mp h) hd

theorem mem_defs_ofTypes {types : List TypeDef} (h : (types.map TypeDef.name).Nodup) {d : TypeDef} :
    d ∈ (ofTypes types).defs ↔ d ∈ types := by
  constructor
  · intro hd
    exact ((get?_ofTypes_of_nodup h).mp (distinct_ofTypes types d hd)).1
  · intro hd
    exact List.mem_of_find?_eq_some ((get?_ofTypes_of_nodup h).mpr ⟨hd, rfl⟩)

end Registry

end WireSchema
