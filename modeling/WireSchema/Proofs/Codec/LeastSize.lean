import WireSchema.Proofs.Codec.Reading

/-!
# Least sizes

The least size of a codec is a bound: no value is read from fewer bytes. It
holds whatever the depth to which keys are followed, so a set in which types
contain themselves needs no exception.
-/

namespace WireSchema

set_option autoImplicit false

open Schema Decoder

theorem saturated_le (n : Nat) : saturated n ≤ n := Nat.min_le_left _ _

/-- A decoder read `count` times in a row, where one reading takes at least `least` bytes. -/
theorem Decoder.yields_times {α : Type} {d : Decoder α} {least : Nat}
    (hd : d.Yields fun bytes _ => least ≤ bytes.length) (count : Nat) :
    Yields (d.times count) fun bytes items => items.length = count ∧ least * count ≤ bytes.length := by
  induction count with
  | zero => exact yields_pure ⟨rfl, by simp⟩
  | succ count ih =>
    refine yields_bind (hd.mono ?_)
    intro x item hx
    refine yields_bind (ih.mono ?_)
    rintro y items ⟨rfl, hy⟩
    refine yields_pure ⟨rfl, ?_⟩
    simp only [List.append_nil, List.length_append, Nat.mul_succ]
    omega

theorem Schema.Primitive.yields_minSize (p : Primitive) :
    Yields p.read fun bytes _ => p.minSize ≤ bytes.length := by
  cases p with
  | bool =>
    refine yields_bind (Reader.yields_bool.mono ?_)
    rintro _ b rfl
    exact yields_pure (by simp [Primitive.minSize])
  | scalar s =>
    refine yields_bind ((Reader.yields_bytes s.size).mono ?_)
    rintro front _ ⟨h, rfl⟩
    exact yields_pure (by simp [Primitive.minSize, h])
  | bytes =>
    refine yields_bind ((Reader.yields_count 1).mono ?_)
    rintro _ n ⟨rfl, -⟩
    refine yields_bind ((Reader.yields_bytes n).mono ?_)
    intro front data _
    exact yields_pure (by simp [Primitive.minSize])
  | string =>
    refine yields_bind (Reader.yields_string.mono ?_)
    rintro _ text ⟨rfl, -⟩
    exact yields_pure (by simp [Primitive.minSize])

theorem yields_readFields_minSize {read : Codec → Decoder Value} {ofKey : String → Nat}
    (h : ∀ codec, (read codec).Yields fun bytes _ => codec.minSize ofKey ≤ bytes.length)
    (fields : List FieldCodec) :
    Yields (readFields read fields) fun bytes _ => ∀ before,
      fields.foldl (fun total f => saturated (total + f.codec.minSize ofKey)) before
        ≤ before + bytes.length := by
  induction fields with
  | nil => exact yields_pure fun before => Nat.le_refl before
  | cons field rest ih =>
    refine yields_bind ((h field.codec).mono ?_)
    intro x value hx
    refine yields_bind (ih.mono ?_)
    intro y values hy
    refine yields_pure fun before => ?_
    have hfold := hy (saturated (before + field.codec.minSize ofKey))
    have hsat := saturated_le (before + field.codec.minSize ofKey)
    simp only [List.foldl_cons, List.append_nil, List.length_append]
    omega

theorem Layout.yields_minSize {read : Codec → Decoder Value} {ofKey : String → Nat}
    (h : ∀ codec, (read codec).Yields fun bytes _ => codec.minSize ofKey ≤ bytes.length)
    (key : String) (layout : Layout) :
    Yields (layout.read read key) fun bytes _ => layout.minSize ofKey ≤ bytes.length := by
  cases layout with
  | struct fields =>
    refine yields_bind ((yields_readFields_minSize h fields).mono ?_)
    intro bytes values hvalues
    refine yields_pure ?_
    have := hvalues 0
    simpa [Layout.minSize] using this
  | simpleEnum names =>
    refine yields_bind ((Reader.yields_number 1).mono ?_)
    rintro _ index ⟨rfl, -⟩
    split
    · exact yields_pure (by simp [Layout.minSize])
    · exact yields_throw _
  | complexEnum variants =>
    refine yields_bind ((Reader.yields_number 1).mono ?_)
    rintro _ index ⟨rfl, -⟩
    split
    · exact yields_pure (by simp [Layout.minSize])
    · refine yields_bind ((yields_readFields_minSize h _).mono ?_)
      intro bytes values _
      exact yields_pure (by simp [Layout.minSize])
    · exact yields_throw _
  | aliasOf codec => exact h codec

namespace LayoutSet

/-- The bound holds for keys followed to any depth, which is what the induction needs. -/
theorem yields_minSize_within (set : LayoutSet) (levels : Nat) :
    ∀ codec fuel, Yields (set.readAt levels codec) fun bytes _ =>
      codec.minSize (set.keyMinSize fuel) ≤ bytes.length := by
  induction levels with
  | zero => exact fun codec fuel => yields_throw _
  | succ levels ih =>
    intro codec fuel
    cases codec with
    | prim p => exact p.yields_minSize
    | option tag inner =>
      refine yields_bind ((Reader.yields_number tag.size).mono ?_)
      rintro _ n ⟨rfl, -⟩
      split
      · exact yields_pure (by simp [Codec.minSize])
      · refine yields_bind ((ih inner fuel).mono ?_)
        intro bytes value _
        exact yields_pure (by simp [Codec.minSize])
      · exact yields_throw _
    | vec inner =>
      refine yields_bind ((Reader.yields_count _).mono ?_)
      rintro _ count ⟨rfl, -⟩
      dsimp only
      split
      · exact yields_bind (yields_throw _)
      · refine yields_bind ((yields_times (ih inner fuel) count).mono ?_)
        intro bytes items _
        exact yields_pure (by simp [Codec.minSize])
    | array inner length =>
      have hitems := yields_times (ih inner fuel) length
      rw [readAt]
      dsimp only
      split
      · exact yields_bind (yields_throw _)
      · refine yields_bind ((Reader.yields_ensure _ _).mono ?_)
        rintro _ _ rfl
        refine yields_bind (hitems.mono ?_)
        rintro bytes items ⟨-, hbytes⟩
        refine yields_pure ?_
        have := saturated_le (inner.minSize (set.keyMinSize fuel) * length)
        simp only [Codec.minSize, List.append_nil, List.nil_append]
        omega
    | defined key =>
      rw [readAt]
      cases hkey : set.get? key with
      | none => exact yields_throw _
      | some layout =>
        cases fuel with
        | zero => exact (layout.yields_minSize (fun c => ih c 0) key).mono fun _ _ _ => Nat.zero_le _
        | succ fuel =>
          refine (layout.yields_minSize (fun c => ih c fuel) key).mono ?_
          intro bytes value h
          simpa [Codec.minSize, keyMinSize, hkey] using h

theorem yields_minSize (set : LayoutSet) (levels : Nat) (codec : Codec) :
    Yields (set.readAt levels codec) fun bytes _ => set.minSize codec ≤ bytes.length :=
  set.yields_minSize_within levels codec _

end LayoutSet

end WireSchema
