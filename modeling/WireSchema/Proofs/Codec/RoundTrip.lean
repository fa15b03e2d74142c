import WireSchema.Proofs.Codec.Levels
import WireSchema.Proofs.Codec.Output

/-!
# Reading what was written

The bytes written for a value are read back as its normal form, with as many
levels as that has. The induction is on the value. What the two sides must
agree on is checked at each shape: the counts, the refusal of elements without
bytes, the early check of lengths, and the index of a variant, which fits its
byte only because no enumeration has more than 256 variants.
-/

namespace WireSchema

set_option autoImplicit false

open Schema Encoder Decoder

def Layout.variantCount : Layout → Nat
  | .simpleEnum names => names.length
  | .complexEnum variants => variants.length
  | .struct _ | .aliasOf _ => 0

/-- Every index of a variant fits one byte. -/
def LayoutSet.SmallEnums (set : LayoutSet) : Prop :=
  ∀ key layout, set.get? key = some layout → layout.variantCount ≤ 256

theorem run_index {index : Nat} (h : index < 256) (i : Nat) (rest : List UInt8) :
    (Reader.number 1).run ⟨i, [UInt8.ofNat index] ++ rest⟩ = (.ok index, ⟨i + 1, rest⟩) := by
  rw [← leBytes_one]
  exact Reader.run_number_append h i rest

@[simp] theorem ofBytes_leBytes (s : Scalar) (bits : BitVec (8 * s.size)) :
    Value.ofBytes s (Bytes.leBytes s.size bits.toNat) = .scalar s bits := by
  have hlt : bits.toNat < Nat.pow 256 s.size := by
    have h : Nat.pow 256 s.size = 2 ^ (8 * s.size) := by
      rw [Nat.pow_mul]
      rfl
    rw [h]
    exact bits.isLt
  rw [Value.ofBytes, Value.ofNat, Bytes.leNat_leBytes, Nat.mod_eq_of_lt hlt, BitVec.ofNat_toNat]
  simp

/-- The bytes that a value writes are read as its normal form, with one level more than its depth. -/
def LayoutSet.ReadsBack (set : LayoutSet) (v : Value) : Prop :=
  ∀ codec bytes, Writes (v.write set codec) bytes →
    Needs (set.readAt · codec) ((v.normal set codec).depth set codec + 1) bytes (v.normal set codec)

theorem payloadCodecs_eq {variants : List VariantCodec} {variant : String} {index : Nat}
    {v : VariantCodec} (hindex : variants.findIdx? (·.name = variant) = some index)
    (hv : variants[index]? = some v) : v.name = variant ∧ payloadCodecs variants variant = v.fields := by
  obtain ⟨hlt, hname, hfirst⟩ := List.findIdx?_eq_some_iff_getElem.mp hindex
  obtain ⟨_, rfl⟩ := List.getElem?_eq_some_iff.mp hv
  have hfind : variants.find? (·.name = variant) = some variants[index] :=
    List.find?_eq_some_iff_getElem.mpr ⟨hname, index, hlt, rfl, fun j hj => by simpa using hfirst j hj⟩
  rw [payloadCodecs, hfind]
  exact ⟨of_decide_eq_true hname, rfl⟩

section Parts

variable {set : LayoutSet} {bytes : List UInt8}

theorem needs_items {items : List Value} (ih : ∀ v ∈ items, set.ReadsBack v) {codec : Codec}
    (h : Writes (writeItems set codec items) bytes) :
    Needs (fun levels => (set.readAt levels codec).times items.length)
      (itemsDepth set codec (normalItems set codec items)) bytes (normalItems set codec items) := by
  induction items generalizing bytes with
  | nil =>
    rw [(Does.unique h writes_pure).1]
    exact needs_pure _
  | cons item rest ihr =>
    obtain ⟨x, y, hx, hy, rfl⟩ := writes_writeItems_cons h
    have hitem := ih item List.mem_cons_self codec x hx
    have hrest := ihr (fun v hv => ih v (List.mem_cons_of_mem _ hv)) hy
    exact hitem.bind hrest.map

theorem least_items {items : List Value} (ih : ∀ v ∈ items, set.ReadsBack v) {codec : Codec}
    (h : Writes (writeItems set codec items) bytes) :
    items.length * set.minSize codec ≤ bytes.length := by
  have hleast := (needs_items ih h).of_yields (yields_times (set.yields_minSize _ codec) items.length)
  rw [Nat.mul_comm]
  exact hleast.2

theorem needs_fields {fields : List (String × Value)} (ih : ∀ f ∈ fields, set.ReadsBack f.2)
    {codecs : List FieldCodec} (h : Writes (writeFields (fieldWriters set fields) codecs) bytes) :
    Needs (fun levels => readFields (set.readAt levels) codecs)
      (fieldsDepth set codecs (pickFields (normalFields set fields) codecs)) bytes
      (pickFields (normalFields set fields) codecs) := by
  induction codecs generalizing bytes with
  | nil =>
    rw [(Does.unique h writes_pure).1]
    exact needs_pure _
  | cons field rest ihr =>
    obtain ⟨v, x, y, hv, hx, hy, rfl⟩ := writes_writeFields_cons h
    have hfield := ih _ (Keyed.mem_of_lookup hv) field.codec x hx
    rw [pickFields, lookup_normalFields, hv]
    exact hfield.bind (ihr hy).map

theorem needs_payload {payload : Option (List (String × Value))}
    (ih : ∀ fields ∈ payload, ∀ f ∈ fields, set.ReadsBack f.2) {codecs : List FieldCodec}
    (h : Writes (writeFields ((payload.map (fieldWriters set)).getD []) codecs) bytes) :
    Needs (fun levels => readFields (set.readAt levels) codecs)
      (fieldsDepth set codecs (pickFields ((payload.map (normalFields set)).getD []) codecs)) bytes
      (pickFields ((payload.map (normalFields set)).getD []) codecs) := by
  cases payload with
  | none =>
    have hnil : Writes (writeFields (fieldWriters set []) codecs) bytes := h
    exact needs_fields (fun _ h => absurd h List.not_mem_nil) hnil
  | some fields => exact needs_fields (ih fields rfl) h

end Parts

namespace LayoutSet

variable {set : LayoutSet}

theorem readsBack_bool (b : Bool) : set.ReadsBack (.bool b) := by
  intro codec bytes h
  rw [Value.write] at h
  split at h
  · next ht =>
    rw [(Does.unique h (writes_emit _)).1]
    refine needs_of_prim ht fun i rest => ?_
    cases b <;> rfl
  · exact absurd h (Target.not_writes_refuse _ _)

theorem readsBack_scalar (s : Scalar) (bits : BitVec (8 * s.size)) :
    set.ReadsBack (.scalar s bits) := by
  intro codec bytes h
  rw [Value.write] at h
  split at h
  · next t ht =>
    split at h
    · next hs =>
      subst hs
      rw [(Does.unique h (writes_emit _)).1]
      refine needs_of_prim ht fun i rest => ?_
      rw [Primitive.read, Step.run_bind_ok (Reader.run_bytes_append (Bytes.length_leBytes _ _) i),
        ofBytes_leBytes, Bytes.length_leBytes]
      rfl
    · exact absurd h (not_writes_throw _)
  · exact absurd h (Target.not_writes_refuse _ _)

theorem readsBack_bytes (data : List UInt8) : set.ReadsBack (.bytes data) := by
  intro codec bytes h
  rw [Value.write] at h
  split at h
  · next ht =>
    obtain ⟨x, y, hx, hy, rfl⟩ := (appends_emitCount _).writes_bind (appends_emit _) h
    obtain ⟨hlen, rfl⟩ := writes_emitCount_iff.mp hx
    obtain rfl := (Does.unique hy (writes_emit _)).1
    refine needs_of_prim ht fun i rest => ?_
    rw [List.append_assoc, Primitive.read, Step.run_bind_ok (Reader.run_count_append hlen (by simp) i),
      Step.run_bind_ok (Reader.run_bytes_append rfl _)]
    simp [Value.normal, Nat.add_assoc]
  · exact absurd h (Target.not_writes_refuse _ _)

theorem readsBack_string (text : String) : set.ReadsBack (.string text) := by
  intro codec bytes h
  rw [Value.write] at h
  split at h
  · next ht =>
    obtain ⟨x, y, hx, hy, rfl⟩ := (appends_emitCount _).writes_bind (appends_emit _) h
    obtain ⟨hlen, rfl⟩ := writes_emitCount_iff.mp hx
    obtain rfl := (Does.unique hy (writes_emit _)).1
    refine needs_of_prim ht fun i rest => ?_
    rw [List.append_assoc, Primitive.read, Step.run_bind_ok (Reader.run_string_append hlen i rest)]
    simp [Value.normal, Nat.add_assoc]
  · exact absurd h (Target.not_writes_refuse _ _)

theorem readsBack_option (tag : OptionTag) {inner : Option Value} (ih : ∀ v ∈ inner, set.ReadsBack v) :
    set.ReadsBack (.option tag inner) := by
  intro codec bytes h
  rw [Value.write] at h
  split at h
  · next tag' inside ht =>
    split at h
    · next htag =>
      subst htag
      cases inner with
      | none =>
        rw [(Does.unique h (writes_emit _)).1]
        simp only [Value.normal, ht, normalPayload, Value.depth]
        refine needs_of_plain ht (fun _ => rfl) (needs_zero fun _ i rest => ?_)
        exact (Step.run_bind_ok (Reader.run_number_append (Nat.pow_pos (by decide)) i rest)).trans
          (by rw [Bytes.length_leBytes]; rfl)
      | some v =>
        obtain ⟨x, y, hx, hy, rfl⟩ := (appends_emit _).writes_bind (appends_write v inside) h
        rw [(Does.unique hx (writes_emit _)).1]
        simp only [Value.normal, ht, normalPayload, Value.depth]
        refine needs_of_plain ht (fun _ => rfl) (Needs.after (c := 1) (fun i rest => ?_)
          (ih v rfl inside y hy).map)
        rw [Reader.run_number_append (Nat.one_lt_pow (by cases tag' <;> decide) (by decide)), Bytes.length_leBytes]
    · exact absurd h (not_writes_throw _)
  · exact absurd h (Target.not_writes_refuse _ _)

theorem readsBack_vec {items : List Value} (ih : ∀ v ∈ items, set.ReadsBack v) :
    set.ReadsBack (.vec items) := by
  intro codec bytes h
  rw [Value.write] at h
  split at h
  · next inside ht =>
    cases hzero : set.refuseZeroSized inside items.length with
    | some error =>
      simp only [hzero] at h
      exact absurd h not_writes_throw_bind
    | none =>
      simp only [hzero] at h
      obtain ⟨x, y, hx, hy, rfl⟩ := (appends_emitCount _).writes_bind
        (appends_writeItems fun v _ => appends_write v inside) h
      obtain ⟨hlen, rfl⟩ := writes_emitCount_iff.mp hx
      have hleast := least_items ih hy
      simp only [Value.normal, ht, Value.depth]
      refine needs_of_plain ht (fun _ => rfl) (Needs.after (c := items.length) (fun i rest => ?_) ?_)
      · rw [Bytes.length_leBytes]
        exact Reader.run_count_append hlen (by rw [List.length_append]; omega) i
      · simp only [hzero]
        exact (needs_items ih hy).map
  · exact absurd h (Target.not_writes_refuse _ _)

theorem readsBack_array {items : List Value} (ih : ∀ v ∈ items, set.ReadsBack v) :
    set.ReadsBack (.array items) := by
  intro codec bytes h
  rw [Value.write] at h
  split at h
  · next inside length ht =>
    obtain ⟨hlen, hitems⟩ := writes_check_iff.mp h
    obtain rfl := not_not.mp hlen
    cases hzero : set.refuseZeroSized inside items.length with
    | some error =>
      simp only [hzero] at hitems
      exact absurd hitems not_writes_throw_bind
    | none =>
      simp only [hzero] at hitems
      have hleast := least_items ih hitems
      simp only [Value.normal, ht, Value.depth]
      have hbody : ∀ levels, set.readAt (levels + 1) (.array inside items.length) = (do
          Reader.ensure items.length (set.minSize inside)
          return .array (← (set.readAt levels inside).times items.length)) := by
        intro levels
        rw [readAt, hzero]
      rw [← List.nil_append bytes]
      refine needs_of_plain ht hbody (Needs.after (c := ()) (fun i rest => ?_) (needs_items ih hitems).map)
      exact Reader.run_ensure_of_le (by simp only [List.length_append]; omega)
  · exact absurd h (Target.not_writes_refuse _ _)

theorem readsBack_struct {fields : List (String × Value)} (ih : ∀ f ∈ fields, set.ReadsBack f.2) :
    set.ReadsBack (.struct fields) := by
  intro codec bytes h
  rw [Value.write] at h
  split at h
  · next key codecs ht =>
    simp only [Value.normal, ht, Value.depth]
    exact needs_of_layout ht (needs_fields ih h).map
  · exact absurd h (Target.not_writes_refuse _ _)

theorem readsBack_enum (hset : set.SmallEnums) (variant : String)
    {payload : Option (List (String × Value))}
    (ih : ∀ fields ∈ payload, ∀ f ∈ fields, set.ReadsBack f.2) :
    set.ReadsBack (.enum variant payload) := by
  intro codec bytes h
  rw [Value.write_enum] at h
  rw [Value.normal_enum]
  split at h
  · next key names ht =>
    obtain ⟨-, index, hindex, rfl⟩ := writes_writeSimple_iff.mp h
    have hlt := hset key _ (get?_of_target ht)
    obtain ⟨hin, hname, -⟩ := List.findIdx?_eq_some_iff_getElem.mp hindex
    simp only [ht, Value.depth]
    refine needs_of_layout ht (needs_zero fun _ i rest => ?_)
    refine (Step.run_bind_ok (run_index (Nat.lt_of_lt_of_le hin hlt) i rest)).trans ?_
    rw [List.getElem?_eq_getElem hin, of_decide_eq_true hname]
    rfl
  · next key variants ht =>
    have hlt := hset key _ (get?_of_target ht)
    obtain ⟨index, v, tail, hindex, hv, rfl, htail⟩ := writes_writeComplex_inv
      (fun writers hw codecs => by
        obtain ⟨fields, -, rfl⟩ := Option.map_eq_some_iff.mp hw
        exact appends_writeFields (fun f _ => appends_write f.2) codecs) h
    have hrun := run_index (Nat.lt_of_lt_of_le (List.getElem?_eq_some_iff.mp hv).1 hlt)
    obtain ⟨name, fields⟩ := v
    obtain ⟨rfl, hcodecs⟩ := payloadCodecs_eq hindex hv
    simp only [ht, hcodecs]
    cases fields with
    | none =>
      subst htail
      refine needs_of_layout ht (needs_zero fun _ i rest => (Step.run_bind_ok (hrun i rest)).trans ?_)
      rw [hv]
      rfl
    | some codecs =>
      simp only [Option.map_some, Value.depth, ht, hcodecs, Option.getD_some]
      refine needs_of_layout ht (Needs.after (x := [UInt8.ofNat index]) (c := index)
        (fun i rest => hrun i (tail ++ rest)) ?_)
      simp only [hv]
      exact (needs_payload ih htail).map
  · exact absurd h (Target.not_writes_refuse _ _)

theorem readsBack (hset : set.SmallEnums) (v : Value) : set.ReadsBack v := by
  induction v using Value.induction with
  | bool b => exact readsBack_bool b
  | scalar s bits => exact readsBack_scalar s bits
  | bytes data => exact readsBack_bytes data
  | string text => exact readsBack_string text
  | option tag inner ih => exact readsBack_option tag ih
  | vec items ih => exact readsBack_vec ih
  | array items ih => exact readsBack_array ih
  | struct fields ih => exact readsBack_struct ih
  | enum variant payload ih => exact readsBack_enum hset variant ih

end LayoutSet

end WireSchema
