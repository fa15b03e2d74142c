import Mathlib.Data.String.Basic
import WireSchema.Codec.Derivation
import WireSchema.Proofs.Codec.RoundTrip
import WireSchema.Proofs.Program.ByteConstants

/-!
# Constants under the codecs of their types

A constant can be written under the codec of its type, and is read back as it
is. No definition is needed for that, as constants are of built-in types, of
bytes and of arrays of bytes only. Counts fit their four bytes because a value
takes no more bytes than its literal.
-/

namespace WireSchema.Program

set_option autoImplicit false

open Schema Unicode Json Encoder Decoder

section Sizes

variable {raw s t : List Char} {text : String} {data : List UInt8}

theorem length_utf8 (text : String) : (Text.utf8 text).length = String.utf8Len text.toList := by
  rw [String.utf8Len_toList]
  exact String.size_toByteArray

theorem length_le_utf8Len (s : List Char) : s.length ≤ String.utf8Len s := by
  induction s with
  | nil => exact Nat.le_refl 0
  | cons c s ih =>
    rw [String.utf8Len_cons, List.length_cons]
    exact Nat.add_le_add ih c.utf8Size_pos

/-- An escape takes no fewer bytes than the character that it stands for. -/
theorem utf8Len_le_of_spells (h : Spells s t) : String.utf8Len t ≤ String.utf8Len s := by
  induction h with
  | nil => exact Nat.le_refl 0
  | plain _ _ _ ih => exact Nat.add_le_add_right ih _
  | @short e c s t hshort _ ih =>
    have := e.utf8Size_pos
    have := utf8Size_of_shortEscape? hshort
    simp only [String.utf8Len_cons]
    omega
  | @unit c digits s t hunit _ ih =>
    obtain ⟨used, hused⟩ := unicodeEscapeOf_digits hunit
    have hlong : 4 ≤ String.utf8Len used := Nat.le_trans hused.long (length_le_utf8Len used)
    have := c.utf8Size_le_four
    rw [hused.front]
    simp only [String.utf8Len_cons, String.utf8Len_append]
    omega

theorem utf8Len_le_of_quotes (h : Quotes raw text) : String.utf8Len text.toList ≤ String.utf8Len raw := by
  obtain ⟨spelling, rfl, hspells, -⟩ := h
  have := utf8Len_le_of_spells hspells
  simp only [String.utf8Len_cons, String.utf8Len_append]
  omega

theorem utf8Len_le_of_unquote? (h : IsTrimmed raw) (htext : unquote? raw = some text) :
    (Text.utf8 text).length ≤ String.utf8Len raw := by
  rw [length_utf8]
  rcases (unquote?_eq_some_iff h.last).mp htext with hquotes | ⟨-, rfl⟩
  · exact utf8Len_le_of_quotes hquotes
  · rw [String.toList_ofList]

theorem length_le_of_bytes? (h : IsTrimmed raw) (hdata : bytes? raw = some data) :
    data.length ≤ String.utf8Len raw := by
  rcases (bytes?_eq_some_iff h).mp hdata with (hbytes | hquotes) | ⟨rest, rfl, -, rfl⟩
  · exact Nat.le_trans hbytes.length_le (length_le_utf8Len raw)
  · rw [length_utf8]
    exact Nat.le_add_right_of_le (utf8Len_le_of_quotes hquotes)
  · rw [length_utf8, String.toList_ofList]
    exact Nat.le_add_right _ _

end Sizes

section Codecs

/-- The types that constants have, their codecs, and the values that fit these. -/
inductive Fits : Ty → Codec → Value → Prop where
  | bool (b : Bool) : Fits (.prim .bool) (.prim .bool) (.bool b)
  | scalar (s : Scalar) (bits : BitVec (8 * s.size)) : Fits (.prim (.scalar s)) (.prim (.scalar s)) (.scalar s bits)
  | string {text : String} : (Text.utf8 text).length < Nat.pow 2 32 →
      Fits (.prim .string) (.prim .string) (.string text)
  | bytes {data : List UInt8} : data.length < Nat.pow 2 32 → Fits (.prim .bytes) (.prim .bytes) (.bytes data)
  | vec {data : List UInt8} : data.length < Nat.pow 2 32 →
      Fits (.vec (some (.prim (.scalar .u8)))) (.vec (.prim (.scalar .u8))) (.vec (byteValues data))
  | array (data : List UInt8) :
      Fits (.array (some (.prim (.scalar .u8))) (.value data.length)) (.array (.prim (.scalar .u8)) data.length)
        (.array (byteValues data))

section Values

variable {ty : Ty} {v : Value} {raw : List Char}

theorem exists_of_scalar? {s : Scalar} (h : scalar? s raw = some v) : ∃ bits, v = .scalar s bits := by
  have hmap : ∀ {α : Type} {a? : Option α} {f : α → Value}, (∀ a, ∃ bits, f a = .scalar s bits) →
      a?.map f = some v → ∃ bits, v = .scalar s bits := by
    intro α a? f hf ha
    obtain ⟨a, -, rfl⟩ := Option.map_eq_some_iff.mp ha
    exact hf a
  have hnat : ∀ n : Nat, ∃ bits, Value.ofNat s n = .scalar s bits := fun n => ⟨_, rfl⟩
  have hint : ∀ n : Int, ∃ bits, Value.ofInt s n = .scalar s bits := fun n => ⟨_, rfl⟩
  have hbytes : ∀ data : List UInt8, ∃ bits, Value.ofBytes s data = .scalar s bits := fun data => ⟨_, rfl⟩
  cases s with
  | u8 | u16 | u32 | u64 | u128 | f32 | f64 => exact hmap hnat h
  | i8 | i16 | i32 | i64 | i128 => exact hmap hint h
  | u256 | i256 => cases h
  | pubkey => exact hmap hbytes h

theorem fits_of_holdsBytes {data : List UInt8} (h : HoldsBytes ty data v) (hsize : data.length < Nat.pow 2 32) :
    ∃ codec, Fits ty codec v := by
  cases h with
  | bytes => exact ⟨_, .bytes hsize⟩
  | vec => exact ⟨_, .vec hsize⟩
  | array => exact ⟨_, .array data⟩

/-- What is read from a literal has the type that it was read for, and no count that needs more than four bytes. -/
theorem fits_of_literal? (htrim : IsTrimmed raw) (hsize : String.utf8Len raw < Nat.pow 2 32)
    (h : literal? ty raw = some v) : ∃ codec, Fits ty codec v := by
  have hbytes : IsByteType ty → ∃ codec, Fits ty codec v := by
    intro hty
    obtain ⟨data, hdata, hholds⟩ := (literal?_bytes_iff hty).mp h
    exact fits_of_holdsBytes hholds (Nat.lt_of_le_of_lt (length_le_of_bytes? htrim hdata) hsize)
  unfold literal? at h
  split at h
  · split at h
    · cases h
      exact ⟨_, .bool true⟩
    · split at h <;> cases h
      exact ⟨_, .bool false⟩
  · next s =>
    obtain ⟨bits, rfl⟩ := exists_of_scalar? h
    exact ⟨_, .scalar s bits⟩
  · obtain ⟨text, htext, rfl⟩ := Option.map_eq_some_iff.mp h
    exact ⟨_, .string (Nat.lt_of_le_of_lt (utf8Len_le_of_unquote? htrim htext) hsize)⟩
  · exact hbytes .bytes
  · exact hbytes .vec
  · next length => exact hbytes (.array length)
  · cases h

end Values

section Writing

variable {ty : Ty} {codec : Codec} {v : Value} {set : LayoutSet}

theorem run_codec_of_fits (h : Fits ty codec v) (registry : Registry) (path : String) (s : DerivationState) :
    (registry.codec (some ty) path).run s = (.ok codec, s) := by
  cases h <;> rfl

theorem writes_scalar (set : LayoutSet) (s : Scalar) (bits : BitVec (8 * s.size)) :
    Writes ((Value.scalar s bits).write set (.prim (.scalar s))) (Bytes.leBytes s.size bits.toNat) := by
  have htarget : set.target (.prim (.scalar s)) = .plain (.prim (.scalar s)) := rfl
  rw [Value.write, htarget]
  dsimp only
  rw [if_pos rfl]
  exact writes_emit _

theorem exists_writeItems (set : LayoutSet) (data : List UInt8) :
    ∃ bytes, Writes (writeItems set (.prim (.scalar .u8)) (byteValues data)) bytes := by
  induction data with
  | nil => exact ⟨[], writes_pure⟩
  | cons b data ih =>
    obtain ⟨bytes, hbytes⟩ := ih
    exact ⟨_, (writes_scalar set .u8 _).bind hbytes⟩

/-- A byte takes a byte, so any number of them may stand in a row. -/
theorem refuseZeroSized_byte (set : LayoutSet) (count : Nat) :
    set.refuseZeroSized (.prim (.scalar .u8)) count = none := by
  have hsize : set.minSize (.prim (.scalar .u8)) = 1 := rfl
  rw [LayoutSet.refuseZeroSized, hsize]
  exact if_neg fun h => absurd h.2 (by decide)

theorem exists_write_of_fits (h : Fits ty codec v) (set : LayoutSet) : ∃ bytes, Writes (v.write set codec) bytes := by
  cases h with
  | bool b =>
    rw [Value.write]
    exact ⟨_, writes_emit _⟩
  | scalar s bits => exact ⟨_, writes_scalar set s bits⟩
  | string hsize =>
    rw [Value.write]
    exact ⟨_, Writes.bind (writes_emitCount_iff.mpr ⟨hsize, rfl⟩) (writes_emit _)⟩
  | bytes hsize =>
    rw [Value.write]
    exact ⟨_, Writes.bind (writes_emitCount_iff.mpr ⟨hsize, rfl⟩) (writes_emit _)⟩
  | @vec data hsize =>
    obtain ⟨bytes, hbytes⟩ := exists_writeItems set data
    have hcount : (byteValues data).length < Nat.pow 2 32 := by rwa [byteValues, List.length_map]
    have htarget : set.target (.vec (.prim (.scalar .u8))) = .plain (.vec (.prim (.scalar .u8))) := rfl
    refine ⟨Bytes.leBytes 4 (byteValues data).length ++ bytes, ?_⟩
    rw [Value.write, htarget]
    dsimp only
    rw [refuseZeroSized_byte]
    exact Writes.bind (writes_emitCount_iff.mpr ⟨hcount, rfl⟩) hbytes
  | array data =>
    obtain ⟨bytes, hbytes⟩ := exists_writeItems set data
    have hlength : (byteValues data).length = data.length := List.length_map _
    have htarget : set.target (.array (.prim (.scalar .u8)) data.length)
        = .plain (.array (.prim (.scalar .u8)) data.length) := rfl
    refine ⟨bytes, ?_⟩
    rw [Value.write, htarget]
    refine writes_check_iff.mpr ⟨not_not.mpr hlength, ?_⟩
    rw [refuseZeroSized_byte]
    exact hbytes

end Writing

section Reading

variable {ty : Ty} {codec : Codec} {v : Value} {set : LayoutSet}

theorem normalItems_byteValues (set : LayoutSet) (data : List UInt8) :
    normalItems set (.prim (.scalar .u8)) (byteValues data) = byteValues data := by
  induction data with
  | nil => rfl
  | cons b data ih => exact congrArg _ ih

theorem itemsDepth_byteValues (set : LayoutSet) (data : List UInt8) :
    itemsDepth set (.prim (.scalar .u8)) (byteValues data) ≤ 1 := by
  induction data with
  | nil => exact Nat.zero_le 1
  | cons b data ih => exact Nat.max_le.mpr ⟨Nat.le_refl 1, ih⟩

theorem normal_of_fits (h : Fits ty codec v) (set : LayoutSet) : v.normal set codec = v := by
  cases h with
  | bool | scalar | string | bytes => rfl
  | @vec data => exact congrArg Value.vec (normalItems_byteValues set data)
  | array data => exact congrArg Value.array (normalItems_byteValues set data)

theorem depth_of_fits (h : Fits ty codec v) (set : LayoutSet) : v.depth set codec ≤ 1 := by
  cases h with
  | bool | scalar | string | bytes => exact Nat.zero_le 1
  | @vec data | array data =>
    have hdepth : 0 + itemsDepth set (.prim (.scalar .u8)) (byteValues data) ≤ 1 := by
      rw [Nat.zero_add]
      exact itemsDepth_byteValues set data
    exact hdepth

theorem readsBack_of_fits (h : Fits ty codec v) (set : LayoutSet) : set.ReadsBack v := by
  have hbytes : ∀ {data : List UInt8}, ∀ v ∈ byteValues data, set.ReadsBack v := by
    intro data v hv
    obtain ⟨b, -, rfl⟩ := List.mem_map.mp hv
    exact LayoutSet.readsBack_scalar _ _
  cases h with
  | bool b => exact LayoutSet.readsBack_bool b
  | scalar s bits => exact LayoutSet.readsBack_scalar s bits
  | string => exact LayoutSet.readsBack_string _
  | bytes => exact LayoutSet.readsBack_bytes _
  | vec => exact LayoutSet.readsBack_vec hbytes
  | array => exact LayoutSet.readsBack_array hbytes

/-- A value that fits a codec is written under it, and what is written is read back as that value. -/
theorem exists_encode_of_fits (h : Fits ty codec v) (set : LayoutSet) :
    ∃ bytes, set.encode codec v = .ok bytes ∧ set.decode codec bytes = .ok v := by
  obtain ⟨bytes, hwrites⟩ := exists_write_of_fits h set
  refine ⟨bytes, hwrites.bytes_eq, ?_⟩
  have hneeds := readsBack_of_fits h set codec bytes hwrites
  rw [normal_of_fits h] at hneeds
  have hlevels : v.depth set codec + 1 ≤ maxDepth + 1 :=
    Nat.succ_le_succ (Nat.le_trans (depth_of_fits h set) (by decide))
  have hread := hneeds.reads (maxDepth + 1) 0 [] hlevels
  rw [List.append_nil] at hread
  rw [LayoutSet.decode_eq, Reader.ofBytes, LayoutSet.decodeFrom, hread]
  rfl

end Reading

end Codecs

/-- A constant has a codec, whatever is derived and whether or not there are definitions, and under it the value of
the constant is written as bytes that are read as that value again. -/
theorem constantValue_fits {c : Constant} {v : Value} (hsize : (Text.utf8 c.value).length < Nat.pow 2 32)
    (h : constantValue c = .ok v) :
    ∃ codec, (∀ (registry : Registry) (path : String) (s : DerivationState),
        (registry.codec (some c.ty) path).run s = (.ok codec, s))
      ∧ ∀ set : LayoutSet, ∃ bytes, set.encode codec v = .ok bytes ∧ set.decode codec bytes = .ok v := by
  have hread : literal? c.ty (trim c.value.toList) = some v := by
    unfold constantValue at h
    split at h
    · next hsome =>
      cases h
      exact hsome
    · cases h
  have hshort : String.utf8Len (trim c.value.toList) < Nat.pow 2 32 := by
    rw [length_utf8] at hsize
    exact Nat.lt_of_le_of_lt (String.utf8Len_le_of_sublist (trim_sublist _)) hsize
  obtain ⟨codec, hfits⟩ := fits_of_literal? (isTrimmed_trim _) hshort hread
  exact ⟨codec, run_codec_of_fits hfits, exists_encode_of_fits hfits⟩

/-- Bytes in an array, without any definition and from the start. -/
theorem constantValue_fits_tag :
    let c : Constant := ⟨"TAG", [], .vec (some (.prim (.scalar .u8))), "[7, 8]"⟩
    let v : Value := .vec (byteValues [7, 8])
    (Text.utf8 c.value).length < Nat.pow 2 32 ∧ constantValue c = .ok v
      ∧ ∃ codec, ((Registry.ofTypes []).codec (some c.ty) "").run .initial = (.ok codec, .initial)
        ∧ ∃ bytes, LayoutSet.empty.encode codec v = .ok bytes ∧ LayoutSet.empty.decode codec bytes = .ok v := by
  intro c v
  have hsize : (Text.utf8 c.value).length < Nat.pow 2 32 := by decide +kernel
  have hdata : bytes? (trim c.value.toList) = some [7, 8] := by decide +kernel
  have hliteral : literal? c.ty (trim c.value.toList) = some v := (literal?_bytes_iff .vec).mpr ⟨_, hdata, .vec⟩
  have hread : constantValue c = .ok v := by rw [constantValue, hliteral]
  obtain ⟨codec, hcodec, hbytes⟩ := constantValue_fits hsize hread
  exact ⟨hsize, hread, codec, hcodec _ _ _, hbytes _⟩

end WireSchema.Program
