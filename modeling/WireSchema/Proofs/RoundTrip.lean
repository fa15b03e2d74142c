import WireSchema.Proofs.Codec.RoundTrip
import WireSchema.Proofs.Derivation.Requests

/-!
# Decoding what was encoded

For layouts that were handed out, whatever was asked for, data that was encoded
decodes to the normal form of the value, or to the depth limit if that nests too
deeply. Scalars are compared bit for bit. Values that are refused by the encoder
are not spoken of.
-/

namespace WireSchema

set_option autoImplicit false

open Schema Encoder

theorem length_variantCodecs? {codecOf : Ty → Option Codec} {variants : List Variant}
    {codecs : List VariantCodec} (h : variantCodecs? codecOf variants = some codecs) :
    codecs.length = variants.length := by
  induction variants generalizing codecs with
  | nil =>
    cases h
    rfl
  | cons v rest ih =>
    obtain ⟨name, _ | fields⟩ := v
    · obtain ⟨tail, htail, heq⟩ := Option.bind_eq_some_iff.mp h
      cases heq
      simp [ih htail]
    · obtain ⟨head, -, h⟩ := Option.bind_eq_some_iff.mp h
      obtain ⟨tail, htail, heq⟩ := Option.bind_eq_some_iff.mp h
      cases heq
      simp [ih htail]

theorem Schema.Body.variantCount_le {codecOf : Ty → Option Codec} {body : Body} {layout : Layout}
    (h : body.layout? codecOf = some layout) : layout.variantCount ≤ 256 := by
  cases body with
  | struct fields =>
    cases fields with
    | none =>
      cases h
      exact Nat.zero_le _
    | some fields =>
      obtain ⟨codecs, -, rfl⟩ := Option.map_eq_some_iff.mp h
      exact Nat.zero_le _
  | enum variants =>
    rw [Body.layout?] at h
    split at h
    · cases h
    · next hcount =>
      split at h
      · obtain ⟨codecs, hcodecs, rfl⟩ := Option.map_eq_some_iff.mp h
        have hlength : codecs.length = variants.length := length_variantCodecs? hcodecs
        rw [Layout.variantCount, hlength]
        omega
      · cases h
        rw [Layout.variantCount, List.length_map]
        omega
  | aliasOf ty =>
    obtain ⟨codec, -, rfl⟩ := Option.map_eq_some_iff.mp h
    exact Nat.zero_le _

namespace LayoutSet

/-- No enumeration that was handed out has more variants than a byte can tell apart. -/
theorem smallEnums_of_finishes {types : List TypeDef} {set : LayoutSet}
    (h : (Registry.ofTypes types).Finishes set) : set.SmallEnums := by
  intro key layout hkey
  obtain ⟨i, -, hlayout⟩ := h.layout? (Registry.distinct_ofTypes types) hkey
  obtain ⟨d, -, hd⟩ := Option.bind_eq_some_iff.mp hlayout
  unfold TypeDef.layout? at hd
  split at hd
  · cases hd
  · exact Body.variantCount_le hd

/-- Encoding and decoding again normalises. -/
theorem decode_of_encode {types : List TypeDef} {set : LayoutSet}
    (hset : (Registry.ofTypes types).Finishes set) (codec : Codec) (v : Value) {bytes : List UInt8}
    (h : set.encode codec v = .ok bytes) :
    set.decode codec bytes
      = if (v.normal set codec).depth set codec ≤ maxDepth then .ok (v.normal set codec)
        else .error (.depthLimit maxDepth) := by
  have hwrites : Writes (v.write set codec) bytes := (appends_write v codec).writes_of_bytes h
  have hneeds := readsBack (smallEnums_of_finishes hset) v codec bytes hwrites
  have hbytes : Reader.ofBytes bytes = ⟨0, bytes ++ []⟩ := by
    rw [List.append_nil]
    rfl
  rw [decode_eq, hbytes, decodeFrom]
  by_cases hdepth : (v.normal set codec).depth set codec ≤ maxDepth
  · rw [if_pos hdepth, hneeds.reads (maxDepth + 1) 0 [] (Nat.succ_le_succ hdepth)]
    rfl
  · obtain ⟨r, hrun⟩ := hneeds.refuses (maxDepth + 1) 0 [] (by omega)
    rw [if_neg hdepth, hrun]

/-- Fields out of order, one of them twice, and one too many. -/
theorem decode_of_encode_unsorted :
    let pair : TypeDef := ⟨"Pair", [], .borsh, none, [], .struct (some (.named
      [⟨"a", [], .prim (.scalar .u8)⟩, ⟨"b", [], .option .byte (some (.prim .bool))⟩]))⟩
    let set : LayoutSet := ⟨[("Pair", .struct
      [⟨"a", .prim (.scalar .u8)⟩, ⟨"b", .option .byte (.prim .bool)⟩])]⟩
    let b : Value := .option .byte (some (.bool true))
    let v : Value := .struct [("b", b), ("c", .vec []), ("a", .ofNat .u8 7), ("b", .string "")]
    (Registry.ofTypes [pair]).Finishes set ∧ set.encode (.defined "Pair") v = .ok [7, 1, 1]
      ∧ set.decode (.defined "Pair") [7, 1, 1] = .ok (.struct [("a", .ofNat .u8 7), ("b", b)]) := by
  intro pair set b v
  have hset : (Registry.ofTypes [pair]).Finishes set := ⟨[.definitions], by decide +kernel⟩
  have hv : set.encode (.defined "Pair") v = .ok [7, 1, 1] := by decide +kernel
  exact ⟨hset, hv, (decode_of_encode hset (.defined "Pair") v hv).trans rfl⟩

end LayoutSet

end WireSchema
