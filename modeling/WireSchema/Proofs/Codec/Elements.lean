import WireSchema.Proofs.Codec.Loops

/-!
# How many elements are read

Data decide how much is read from them, whatever lengths they or the layouts
declare. No element is empty, and none lies deeper than the limit. So the elements
on one level of nesting have different bytes, and a value has at most 128 elements
for each byte it was read from.
-/

namespace WireSchema

set_option autoImplicit false

open Schema Decoder

mutual

/-- The number of elements of all vectors and arrays in a value. -/
def Value.elements : Value → Nat
  | .bool _ | .scalar _ _ | .bytes _ | .string _ => 0
  | .option _ none => 0
  | .option _ (some inner) => inner.elements
  | .vec items => items.length + itemsElements items
  | .array items => items.length + itemsElements items
  | .struct fields => fieldsElements fields
  | .enum _ none => 0
  | .enum _ (some fields) => fieldsElements fields

def itemsElements : List Value → Nat
  | [] => 0
  | item :: rest => item.elements + itemsElements rest

def fieldsElements : List (String × Value) → Nat
  | [] => 0
  | (_, value) :: rest => value.elements + fieldsElements rest

end

theorem Decoder.Yields.and {α : Type} {d : Decoder α} {P Q : List UInt8 → α → Prop} (hP : d.Yields P)
    (hQ : d.Yields Q) : d.Yields fun bytes a => P bytes a ∧ Q bytes a := by
  intro r a s hr
  obtain ⟨x, hx, hindex, hPx⟩ := hP r a s hr
  obtain ⟨y, hy, -, hQy⟩ := hQ r a s hr
  have hxy : x = y := List.append_cancel_right (hx.symm.trans hy)
  exact ⟨x, hx, hindex, hPx, hxy ▸ hQy⟩

section Elements

variable {read : Codec → Decoder Value} {levels : Nat}

/-- Each element takes a byte for itself, beside those for the elements inside of it. -/
theorem yields_elements_times {d : Decoder Value}
    (hd : d.Yields fun bytes v => v.elements + 1 ≤ levels * bytes.length) (count : Nat) :
    (d.times count).Yields fun bytes items => items.length + itemsElements items ≤ levels * bytes.length := by
  induction count with
  | zero => exact yields_pure (Nat.le_refl 0)
  | succ count ih =>
    refine yields_bind (hd.mono ?_)
    intro x item hx
    refine yields_bind (ih.mono ?_)
    intro y items hy
    refine yields_pure ?_
    rw [List.append_nil, List.length_append, Nat.mul_add, List.length_cons, itemsElements]
    omega

theorem yields_elements_readFields (h : ∀ codec, (read codec).Yields fun bytes v => v.elements ≤ levels * bytes.length)
    (fields : List FieldCodec) :
    (readFields read fields).Yields fun bytes values => fieldsElements values ≤ levels * bytes.length := by
  induction fields with
  | nil => exact yields_pure (Nat.le_refl 0)
  | cons field rest ih =>
    refine yields_bind ((h field.codec).mono ?_)
    intro x value hx
    refine yields_bind (ih.mono ?_)
    intro y values hy
    refine yields_pure ?_
    rw [List.append_nil, List.length_append, Nat.mul_add, fieldsElements]
    omega

theorem Layout.yields_elements (h : ∀ codec, (read codec).Yields fun bytes v => v.elements ≤ levels * bytes.length)
    (key : String) (layout : Layout) :
    (layout.read read key).Yields fun bytes v => v.elements ≤ levels * bytes.length := by
  cases layout with
  | struct fields =>
    refine yields_bind ((yields_elements_readFields h fields).mono ?_)
    intro bytes values hvalues
    refine yields_pure ?_
    rwa [List.append_nil]
  | simpleEnum names =>
    refine yields_bind ((Reader.yields_number 1).mono ?_)
    intro _ index _
    cases names[index]? with
    | none => exact yields_throw _
    | some name => exact yields_pure (Nat.zero_le _)
  | complexEnum variants =>
    refine yields_bind ((Reader.yields_number 1).mono ?_)
    intro x index _
    rcases variants[index]? with _ | ⟨name, _ | fields⟩
    · exact yields_throw _
    · exact yields_pure (Nat.zero_le _)
    · refine yields_bind ((yields_elements_readFields h fields).mono ?_)
      intro y values hvalues
      refine yields_pure ?_
      rw [List.append_nil, List.length_append, Nat.mul_add]
      exact Nat.le_add_left_of_le hvalues
  | aliasOf codec => exact h codec

theorem Schema.Primitive.yields_elements (p : Primitive) : p.read.Yields fun _ v => v.elements = 0 := by
  cases p with
  | bool =>
    refine yields_bind (Reader.yields_bool.mono ?_)
    intro _ b _
    exact yields_pure rfl
  | scalar s =>
    refine yields_bind ((Reader.yields_bytes s.size).mono ?_)
    intro _ data _
    exact yields_pure rfl
  | bytes =>
    refine yields_bind ((Reader.yields_count 1).mono ?_)
    intro _ n _
    refine yields_bind ((Reader.yields_bytes n).mono ?_)
    intro _ data _
    exact yields_pure rfl
  | string =>
    refine yields_bind (Reader.yields_string.mono ?_)
    intro _ text _
    exact yields_pure rfl

end Elements

namespace LayoutSet

variable {set : LayoutSet}

/-- The induction is on the levels. With none left nothing is read, so that the bytes themselves can be
added on the left. -/
theorem yields_elements (levels : Nat) (codec : Codec) :
    (set.readAt levels codec).Yields fun bytes v => v.elements + bytes.length ≤ levels * bytes.length := by
  induction levels generalizing codec with
  | zero => exact yields_throw _
  | succ levels ih =>
    have hinner : ∀ codec, (set.readAt levels codec).Yields fun bytes v => v.elements ≤ levels * bytes.length := by
      intro codec
      refine (ih codec).mono fun bytes v h => ?_
      omega
    have hitem : ∀ inner, set.minSize inner ≠ 0 →
        (set.readAt levels inner).Yields fun bytes v => v.elements + 1 ≤ levels * bytes.length := by
      intro inner hleast
      refine ((ih inner).and (set.yields_minSize levels inner)).mono fun bytes v h => ?_
      omega
    suffices h : (set.readAt (levels + 1) codec).Yields fun bytes v => v.elements ≤ levels * bytes.length by
      refine h.mono fun bytes v hv => ?_
      rw [Nat.succ_mul]
      exact Nat.add_le_add_right hv _
    have hitems : ∀ inner count, set.refuseZeroSized inner count = none →
        ((set.readAt levels inner).times count).Yields fun bytes items =>
          items.length + itemsElements items ≤ levels * bytes.length := by
      intro inner count hrefuse
      by_cases hzero : set.minSize inner = 0
      · rw [eq_zero_of_not_refused hrefuse hzero]
        exact yields_pure (Nat.le_refl 0)
      · exact yields_elements_times (hitem inner hzero) count
    cases codec with
    | prim p =>
      refine p.yields_elements.mono fun bytes v hv => ?_
      rw [hv]
      exact Nat.zero_le _
    | option tag inner =>
      refine yields_bind ((Reader.yields_number tag.size).mono ?_)
      intro x n _
      match n with
      | 0 => exact yields_pure (Nat.zero_le _)
      | 1 =>
        refine yields_bind ((hinner inner).mono ?_)
        intro y value hvalue
        refine yields_pure ?_
        rw [List.append_nil, List.length_append, Nat.mul_add]
        exact Nat.le_add_left_of_le hvalue
      | n + 2 => exact yields_throw _
    | vec inner =>
      refine yields_bind ((Reader.yields_count _).mono ?_)
      intro x count _
      cases hrefuse : set.refuseZeroSized inner count with
      | some error => exact yields_bind (yields_throw _)
      | none =>
        refine yields_bind ((hitems inner count hrefuse).mono ?_)
        intro y items hy
        refine yields_pure ?_
        rw [List.append_nil, List.length_append, Nat.mul_add]
        exact Nat.le_add_left_of_le hy
    | array inner length =>
      rw [readAt]
      cases hrefuse : set.refuseZeroSized inner length with
      | some error => exact yields_bind (yields_throw _)
      | none =>
        refine yields_bind ((Reader.yields_ensure _ _).mono ?_)
        rintro _ _ rfl
        refine yields_bind ((hitems inner length hrefuse).mono ?_)
        intro y items hy
        refine yields_pure ?_
        rwa [List.append_nil, List.nil_append]
    | defined key =>
      rw [readAt]
      cases set.get? key with
      | none => exact yields_throw _
      | some layout => exact layout.yields_elements hinner key

/-- The logging decoder is the decoder, each loop it enters is covered by the bytes that are left, and a value
that is read has at most 128 elements for each of its bytes. -/
theorem elements_within_data (set : LayoutSet) (codec : Codec) (r : Reader) :
    (∃ loops, (set.readLogging (maxDepth + 1) codec).run (r, [])
          = (((set.decodeFrom codec).run r).1, ((set.decodeFrom codec).run r).2, loops)
        ∧ ∀ entry ∈ loops, 0 < entry.count → entry.count < sizeLimit → entry.count ≤ entry.unread)
      ∧ ∀ v s, (set.decodeFrom codec).run r = (.ok v, s) → v.elements ≤ maxDepth * (s.index - r.index) := by
  constructor
  · obtain ⟨loops, hrun, hcovered⟩ := set.follows_readLogging (maxDepth + 1) codec r []
    rw [List.append_nil] at hrun
    exact ⟨loops, hrun, hcovered⟩
  · intro v s hrun
    obtain ⟨bytes, -, hindex, hbytes⟩ := set.yields_elements (maxDepth + 1) codec r v s hrun
    have hread : s.index - r.index = bytes.length := by omega
    rw [Nat.succ_mul] at hbytes
    rw [hread]
    exact Nat.le_of_add_le_add_right hbytes

/-- Two arrays in a vector, and a byte behind it. The loops are listed from the last to the first. -/
theorem elements_within_data_nested :
    let codec : Codec := .vec (.array (.prim (.scalar .u8)) 2)
    let r : Reader := ⟨0, [2, 0, 0, 0, 7, 8, 9, 10, 11]⟩
    let v : Value := .vec [.array [.ofNat .u8 7, .ofNat .u8 8], .array [.ofNat .u8 9, .ofNat .u8 10]]
    (empty.readLogging (maxDepth + 1) codec).run (r, []) = (.ok v, ⟨8, [11]⟩, [⟨2, 3⟩, ⟨2, 5⟩, ⟨2, 5⟩])
      ∧ (2 ≤ 3 ∧ 2 ≤ 5) ∧ v.elements = 6 ∧ 6 ≤ maxDepth * (8 - 0) := by
  intro codec r v
  have hlog : (empty.readLogging (maxDepth + 1) codec).run (r, [])
      = (.ok v, ⟨8, [11]⟩, [⟨2, 3⟩, ⟨2, 5⟩, ⟨2, 5⟩]) := rfl
  have hread : (empty.decodeFrom codec).run r = (.ok v, ⟨8, [11]⟩) := rfl
  obtain ⟨⟨loops, hrun, hcovered⟩, helements⟩ := elements_within_data empty codec r
  cases hrun.symm.trans hlog
  have hlast : 2 ≤ 3 := hcovered ⟨2, 3⟩ (by decide) (by decide) (by decide)
  have hfirst : 2 ≤ 5 := hcovered ⟨2, 5⟩ (by decide) (by decide) (by decide)
  exact ⟨hlog, ⟨hlast, hfirst⟩, by decide, helements v _ hread⟩

end LayoutSet

end WireSchema
