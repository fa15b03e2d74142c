import WireSchema.Proofs.Codec.Height
import WireSchema.Proofs.Codec.LeastSize

/-!
# Values without bytes

A codec whose least size is nothing has only values that take no bytes: of a
collection of such values no element is read, and an array has none. The other
way round, that a codec with a least size has a value, is not claimed.
-/

namespace WireSchema

set_option autoImplicit false

open Schema Decoder

theorem saturated_eq_zero {n : Nat} (h : saturated n = 0) : n = 0 :=
  (Nat.min_eq_zero_iff.mp h).resolve_right (by decide)

theorem Schema.Primitive.minSize_ne_zero (p : Primitive) : p.minSize ≠ 0 := by
  cases p with
  | scalar s => cases s <;> decide
  | _ => decide

/-- Fields that together have no least size have none each. -/
theorem minSize_fields_eq_zero {ofKey : String → Nat} {fields : List FieldCodec} {before : Nat}
    (h : fields.foldl (fun total field => saturated (total + field.codec.minSize ofKey)) before = 0) :
    before = 0 ∧ ∀ field ∈ fields, field.codec.minSize ofKey = 0 := by
  induction fields generalizing before with
  | nil => exact ⟨h, fun _ hmem => nomatch hmem⟩
  | cons field rest ih =>
    obtain ⟨hfirst, hrest⟩ := ih h
    have hsum := Nat.add_eq_zero_iff.mp (saturated_eq_zero hfirst)
    exact ⟨hsum.1, List.forall_mem_cons.mpr ⟨hsum.2, hrest⟩⟩

section Parts

variable {read : Codec → Decoder Value} {ofKey : String → Nat}

theorem yields_nil_readFields {fields : List FieldCodec}
    (h : ∀ field ∈ fields, (read field.codec).Yields fun bytes _ => bytes = []) :
    (readFields read fields).Yields fun bytes _ => bytes = [] := by
  induction fields with
  | nil => exact yields_pure rfl
  | cons field rest ih =>
    obtain ⟨hfield, hrest⟩ := List.forall_mem_cons.mp h
    refine yields_bind (hfield.mono ?_)
    rintro _ value rfl
    refine yields_bind ((ih hrest).mono ?_)
    rintro _ values rfl
    exact yields_pure rfl

theorem Layout.yields_nil (h : ∀ codec, codec.minSize ofKey = 0 → (read codec).Yields fun bytes _ => bytes = [])
    (key : String) {layout : Layout} (hzero : layout.minSize ofKey = 0) :
    (layout.read read key).Yields fun bytes _ => bytes = [] := by
  cases layout with
  | struct fields =>
    have hfields := (minSize_fields_eq_zero hzero).2
    refine yields_bind ((yields_nil_readFields fun field hfield => h _ (hfields field hfield)).mono ?_)
    rintro _ values rfl
    exact yields_pure rfl
  | simpleEnum names => cases hzero
  | complexEnum variants => cases hzero
  | aliasOf codec => exact h codec hzero

end Parts

namespace LayoutSet

variable {set : LayoutSet}

theorem eq_zero_of_not_refused {inner : Codec} {count : Nat} (h : set.refuseZeroSized inner count = none)
    (hinner : set.minSize inner = 0) : count = 0 := by
  unfold refuseZeroSized at h
  split at h
  · cases h
  · omega

/-- The induction is on the levels, and follows the least sizes of keys into their layouts. -/
theorem yields_nil (hset : WellFounded set.DirectlyIn) (levels : Nat) {codec : Codec} (hzero : set.minSize codec = 0) :
    (set.readAt levels codec).Yields fun bytes _ => bytes = [] := by
  induction levels generalizing codec with
  | zero => exact yields_throw _
  | succ levels ih =>
    cases codec with
    | prim p => exact absurd hzero p.minSize_ne_zero
    | option tag inner => cases tag <;> cases hzero
    | vec inner => cases hzero
    | array inner length =>
      rw [readAt]
      cases hrefuse : set.refuseZeroSized inner length with
      | some error => exact yields_bind (yields_throw _)
      | none =>
        have hproduct := Nat.mul_eq_zero.mp (saturated_eq_zero hzero)
        have hlength : length = 0 := hproduct.elim (eq_zero_of_not_refused hrefuse) id
        subst hlength
        refine yields_bind ((Reader.yields_ensure _ _).mono ?_)
        rintro _ _ rfl
        exact yields_pure rfl
    | defined key =>
      rw [minSize_defined hset] at hzero
      rw [readAt]
      cases hkey : set.get? key with
      | none => exact yields_throw _
      | some layout =>
        rw [hkey] at hzero
        exact Layout.yields_nil (fun codec hcodec => ih hcodec) key hzero

end LayoutSet

end WireSchema
