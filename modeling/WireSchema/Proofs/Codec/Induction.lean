import WireSchema.Codec.Value

/-!
# Induction on values

What holds of a value if it holds of its payload, its elements or its fields,
holds of every value. In a second form these are one list of parts.
-/

namespace WireSchema

set_option autoImplicit false

open Schema

@[elab_as_elim]
theorem Value.induction {motive : Value → Prop}
    (bool : ∀ b, motive (.bool b))
    (scalar : ∀ s bits, motive (.scalar s bits))
    (bytes : ∀ data, motive (.bytes data))
    (string : ∀ text, motive (.string text))
    (option : ∀ tag inner, (∀ v ∈ inner, motive v) → motive (.option tag inner))
    (vec : ∀ items, (∀ v ∈ items, motive v) → motive (.vec items))
    (array : ∀ items, (∀ v ∈ items, motive v) → motive (.array items))
    (struct : ∀ fields, (∀ f ∈ fields, motive f.2) → motive (.struct fields))
    (enum : ∀ variant payload, (∀ fields ∈ payload, ∀ f ∈ fields, motive f.2) →
      motive (.enum variant payload)) :
    ∀ v, motive v
  | .bool b => bool b
  | .scalar s bits => scalar s bits
  | .bytes data => bytes data
  | .string text => string text
  | .option tag none => option tag none fun _ h => nomatch h
  | .option tag (some v) => option tag (some v) fun w h =>
      have : w = v := (Option.some.inj h).symm
      this ▸ Value.induction bool scalar bytes string option vec array struct enum v
  | .vec items => vec items fun v _ =>
      Value.induction bool scalar bytes string option vec array struct enum v
  | .array items => array items fun v _ =>
      Value.induction bool scalar bytes string option vec array struct enum v
  | .struct fields => struct fields fun f _ =>
      Value.induction bool scalar bytes string option vec array struct enum f.2
  | .enum variant none => enum variant none fun _ h => nomatch h
  | .enum variant (some fields) => enum variant (some fields) fun gs h f hf =>
      have : f ∈ fields := Option.some.inj h ▸ hf
      Value.induction bool scalar bytes string option vec array struct enum f.2
termination_by v => sizeOf v
decreasing_by
  all_goals simp_wf
  · omega
  · have := List.sizeOf_lt_of_mem ‹_›
    omega
  · have := List.sizeOf_lt_of_mem ‹_›
    omega
  · have := List.sizeOf_lt_of_mem ‹f ∈ fields›
    obtain ⟨name, v⟩ := f
    simp at this ⊢
    omega
  · have := List.sizeOf_lt_of_mem ‹f ∈ fields›
    obtain ⟨name, v⟩ := f
    simp at this ⊢
    omega

/-- The parts of a value that are written each by itself. -/
def Value.parts : Value → List Value
  | .option _ inner => inner.toList
  | .vec items | .array items => items
  | .struct fields => fields.map Prod.snd
  | .enum _ payload => (payload.getD []).map Prod.snd
  | _ => []

theorem Value.induction_parts {motive : Value → Prop} (h : ∀ v, (∀ w ∈ v.parts, motive w) → motive v) (v : Value) :
    motive v := by
  induction v using Value.induction with
  | option tag inner ih => exact h _ fun w hw => ih w (Option.mem_toList.mp hw)
  | vec items ih => exact h _ ih
  | array items ih => exact h _ ih
  | struct fields ih =>
    refine h _ fun w hw => ?_
    obtain ⟨f, hf, rfl⟩ := List.mem_map.mp hw
    exact ih f hf
  | enum variant payload ih =>
    refine h _ fun w hw => ?_
    obtain ⟨f, hf, rfl⟩ := List.mem_map.mp hw
    cases payload with
    | none => cases hf
    | some fields => exact ih fields rfl f hf
  | _ => exact h _ fun w hw => nomatch hw

end WireSchema
