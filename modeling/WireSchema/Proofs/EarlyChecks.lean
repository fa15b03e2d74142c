import WireSchema.Proofs.Codec.Empty
import WireSchema.Proofs.Codec.Stepwise
import WireSchema.Proofs.Derivation.Sound
import WireSchema.Proofs.RoundTrip

/-!
# Early checks change no result

Counts are compared to the rest of the data before any element is read. For
layouts that were handed out, whatever was asked for, that refuses nothing that
could be read: the least size it counts with is a bound for every value that is
written or read, and no value has bytes where it is nothing. Which error is
reported may depend on the check.
-/

namespace WireSchema

set_option autoImplicit false

open Schema Encoder

namespace LayoutSet

variable {types : List TypeDef} {set : LayoutSet}

theorem wellFounded_of_finishes (h : (Registry.ofTypes types).Finishes set) : WellFounded set.DirectlyIn := by
  obtain ⟨requests, hrun⟩ := h
  exact wellFounded_directlyIn (selfContaining?_of_finishedLayouts hrun)

/-- What is true of the bytes of everything that is read is true of the bytes of everything that is written. -/
theorem bytes_of_encode (hset : (Registry.ofTypes types).Finishes set) {codec : Codec} {P : List UInt8 → Prop}
    (hread : ∀ levels, (set.readAt levels codec).Yields fun bytes _ => P bytes) {v : Value} {bytes : List UInt8}
    (h : set.encode codec v = .ok bytes) : P bytes := by
  have hwrites : Writes (v.write set codec) bytes := (appends_write v codec).writes_of_bytes h
  have hneeds := readsBack (smallEnums_of_finishes hset) v codec bytes hwrites
  exact hneeds.of_yields (hread _)

/-- Reading looks ahead without effect on what is read, and least sizes are bounds. -/
theorem decodes_stepwise (hset : (Registry.ofTypes types).Finishes set) (codec : Codec) :
    (∀ r v s, (set.decodeFrom codec).run r = (.ok v, s) ↔ (set.decodeStepwise codec).run r = (.ok v, s))
      ∧ (∀ v bytes, set.encode codec v = .ok bytes → set.minSize codec ≤ bytes.length)
      ∧ (∀ r v s, (set.decodeFrom codec).run r = (.ok v, s) → r.index + set.minSize codec ≤ s.index)
      ∧ (set.minSize codec = 0 → (∀ v bytes, set.encode codec v = .ok bytes → bytes = [])
        ∧ ∀ r v s, (set.decodeFrom codec).run r = (.ok v, s) → s = r) := by
  have hground := wellFounded_of_finishes hset
  refine ⟨fun r v s => (set.looksAhead_readAt _ codec).ok_iff, fun v bytes h => ?_, fun r v s h => ?_, fun hzero => ?_⟩
  · exact bytes_of_encode hset (P := fun bytes => _ ≤ bytes.length) (fun levels => set.yields_minSize levels codec) h
  · obtain ⟨bytes, -, hindex, hleast⟩ := set.yields_minSize _ codec r v s h
    omega
  · have hread := fun levels => yields_nil hground levels hzero
    refine ⟨fun v bytes => bytes_of_encode hset hread, fun r v s h => ?_⟩
    obtain ⟨bytes, hrest, hindex, rfl⟩ := hread _ r v s h
    cases r
    cases s
    cases hrest
    cases hindex
    rfl

/-- Two rows in the middle of some data, and a struct without fields. -/
theorem decodes_stepwise_rows :
    let row : TypeDef := .record "Row" [] [("mark", .prim (.scalar .u8)), ("cells", .vec (some (.prim (.scalar .u16))))]
    let unit : TypeDef := ⟨"Unit", [], .borsh, none, [], .struct none⟩
    let set : LayoutSet := ⟨[("Row", .struct [⟨"mark", .prim (.scalar .u8)⟩, ⟨"cells", .vec (.prim (.scalar .u16))⟩]),
      ("Unit", .struct [])]⟩
    let first : Value := .struct [("mark", .ofNat .u8 7), ("cells", .vec [.ofNat .u16 258])]
    let second : Value := .struct [("mark", .ofNat .u8 8), ("cells", .vec [])]
    let r : Reader := ⟨3, [2, 0, 0, 0, 7, 1, 0, 0, 0, 2, 1, 8, 0, 0, 0, 0, 9]⟩
    (Registry.ofTypes [row, unit]).Finishes set
      ∧ (set.decodeFrom (.vec (.defined "Row"))).run r = (.ok (.vec [first, second]), ⟨19, [9]⟩)
      ∧ (set.decodeStepwise (.vec (.defined "Row"))).run r = (.ok (.vec [first, second]), ⟨19, [9]⟩)
      ∧ set.minSize (.defined "Row") = 5
      ∧ set.encode (.defined "Row") second = .ok [8, 0, 0, 0, 0] ∧ set.minSize (.defined "Row") ≤ 5
      ∧ set.minSize (.defined "Unit") = 0
      ∧ ∀ v bytes, set.encode (.defined "Unit") v = .ok bytes → bytes = [] := by
  intro row unit set first second r
  have hset : (Registry.ofTypes [row, unit]).Finishes set := ⟨[.definitions], by decide +kernel⟩
  have hread : (set.decodeFrom (.vec (.defined "Row"))).run r = (.ok (.vec [first, second]), ⟨19, [9]⟩) := rfl
  have hwrite : set.encode (.defined "Row") second = .ok [8, 0, 0, 0, 0] := by decide +kernel
  have hunit : set.minSize (.defined "Unit") = 0 := by decide +kernel
  obtain ⟨hstepwise, -, -, -⟩ := decodes_stepwise hset (.vec (.defined "Row"))
  obtain ⟨-, hleast, -, -⟩ := decodes_stepwise hset (.defined "Row")
  obtain ⟨-, -, -, hnothing⟩ := decodes_stepwise hset (.defined "Unit")
  exact ⟨hset, hread, (hstepwise _ _ _).mp hread, by decide +kernel, hwrite, hleast second _ hwrite, hunit,
    (hnothing hunit).1⟩

end LayoutSet

end WireSchema
