import WireSchema.Proofs.Codec.Alias
import WireSchema.Proofs.Codec.Output
import WireSchema.Proofs.Codec.Recursion
import WireSchema.Proofs.Derivation.Dangling

/-!
# Layouts that are never missed

In a closed set without endless descents the aliases behind every codec come to
an end, and at a layout that is there. So neither writing nor reading ever fails
for want of a layout, whatever the value and the bytes are. What else they may
fail with is left open.
-/

namespace WireSchema

set_option autoImplicit false

open Schema Step

/-- Every one of these keys has a layout. -/
def LayoutSet.Resolves (set : LayoutSet) (keys : List String) : Prop :=
  ∀ key ∈ keys, set.contains key = true

/-- No key leads nowhere, and no type contains itself. -/
structure LayoutSet.Sound (set : LayoutSet) : Prop where
  closed : set.Closed
  grounded : WellFounded set.DirectlyIn

/-- The error is another than that a layout is missing. -/
def CodecError.LayoutFound : CodecError → Prop
  | .missingLayout _ => False
  | _ => True

def Target.keys : Target → List String
  | .plain codec => codec.keys
  | .layout _ found => found.keys
  | .missing key => [key]

namespace LayoutSet

variable {set : LayoutSet} {codec : Codec} {key : String} {layout : Layout} {keys more : List String}

theorem get?_of_contains (h : set.contains key = true) : ∃ layout, set.get? key = some layout :=
  Option.isSome_iff_exists.mp h

theorem Resolves.subset (h : set.Resolves keys) (hsub : more ⊆ keys) : set.Resolves more :=
  fun key hkey => h key (hsub hkey)

theorem Sound.resolves (hset : set.Sound) (h : set.get? key = some layout) : set.Resolves layout.keys :=
  hset.closed key layout h

theorem AliasChain.ne_missing {t : Target} (h : AliasChain set keys codec t) : t ≠ .missing key := by
  induction h with
  | plain _ => exact fun h => nomatch h
  | layout _ _ => exact fun h => nomatch h
  | step _ _ ih => exact ih

/-- The induction is on the descent: what an alias stands for is contained in it directly. -/
theorem Sound.exists_aliasChain_defined (hset : set.Sound) (key : String) (h : set.contains key = true) :
    ∃ keys t, AliasChain set keys (.defined key) t ∧ set.Resolves t.keys := by
  induction key using hset.grounded.induction with
  | _ key ih =>
    obtain ⟨layout, hkey⟩ := get?_of_contains h
    have hinside := hset.resolves hkey
    cases layout with
    | aliasOf inner =>
      have hchain : ∃ keys t, AliasChain set keys inner t ∧ set.Resolves t.keys := by
        cases inner with
        | defined next =>
          apply ih next
          · simp [DirectlyIn, directKeys, hkey, Layout.directKeys, Codec.directKey?]
          · exact hinside next (List.mem_singleton_self next)
        | _ => exact ⟨[], _, .plain (by simp), hinside⟩
      obtain ⟨keys, t, hchain, ht⟩ := hchain
      exact ⟨key :: keys, t, .step hkey hchain, ht⟩
    | _ => exact ⟨[], _, .layout hkey (by simp), hinside⟩

theorem Sound.target (hset : set.Sound) (h : set.Resolves codec.keys) :
    (∀ key, set.target codec ≠ .missing key) ∧ set.Resolves (set.target codec).keys := by
  have hchain : ∃ keys t, AliasChain set keys codec t ∧ set.Resolves t.keys := by
    cases codec with
    | defined key => exact hset.exists_aliasChain_defined key (h key (List.mem_singleton_self key))
    | _ => exact ⟨[], _, .plain (by simp), h⟩
  obtain ⟨keys, t, hchain, ht⟩ := hchain
  rw [hchain.target]
  exact ⟨fun key => hchain.ne_missing, ht⟩

end LayoutSet

theorem layoutFound_of_refuseZeroSized {set : LayoutSet} {inner : Codec} {count : Nat} {error : CodecError}
    (h : set.refuseZeroSized inner count = some error) : error.LayoutFound := by
  unfold LayoutSet.refuseZeroSized at h
  split at h
  · cases h
    trivial
  · cases h

/-- What is done after the check for items of no size. -/
theorem raisesOnly_sized {set : LayoutSet} {inner : Codec} {count : Nat} {σ α : Type}
    {rest : ExceptT CodecError (StateM σ) α} (h : RaisesOnly CodecError.LayoutFound rest) :
    RaisesOnly CodecError.LayoutFound (do
      if let some error := set.refuseZeroSized inner count then
        throw error
      rest) := by
  split
  · next error hzero => exact (raisesOnly_throw (layoutFound_of_refuseZeroSized hzero)).bind fun _ => h
  · exact h

section Writing

variable {set : LayoutSet}

/-- Writing a value under a codec with layouts does not miss one. -/
def Value.WritesWithin (set : LayoutSet) (v : Value) : Prop :=
  ∀ codec, set.Resolves codec.keys → RaisesOnly CodecError.LayoutFound (v.write set codec)

theorem raisesOnly_emit {P : CodecError → Prop} (bytes : List UInt8) :
    RaisesOnly P (Encoder.emit bytes) :=
  raisesOnly_modify _

theorem raisesOnly_emitCount (n : Nat) : RaisesOnly CodecError.LayoutFound (Encoder.emitCount n) := by
  unfold Encoder.emitCount
  split
  · exact raisesOnly_emit _
  · exact raisesOnly_throw trivial

theorem Target.raisesOnly_refuse {t : Target} (h : ∀ key, t ≠ .missing key) (kind : String) :
    RaisesOnly CodecError.LayoutFound (t.refuse kind) := by
  cases t with
  | plain codec => exact raisesOnly_throw trivial
  | layout key layout => exact raisesOnly_throw trivial
  | missing key => exact absurd rfl (h key)

theorem raisesOnly_writeItems {items : List Value} (h : ∀ v ∈ items, v.WritesWithin set) {codec : Codec}
    (hcodec : set.Resolves codec.keys) :
    RaisesOnly CodecError.LayoutFound (writeItems set codec items) := by
  induction items with
  | nil => exact raisesOnly_pure ()
  | cons item rest ih =>
    rw [writeItems]
    apply (h item List.mem_cons_self codec hcodec).bind
    intro _
    exact ih fun v hv => h v (List.mem_cons_of_mem _ hv)

theorem raisesOnly_writeFields {fields : List (String × Value)} (h : ∀ f ∈ fields, f.2.WritesWithin set)
    {codecs : List FieldCodec} (hcodecs : set.Resolves (fieldKeys codecs)) :
    RaisesOnly CodecError.LayoutFound (writeFields (fieldWriters set fields) codecs) := by
  induction codecs with
  | nil => exact raisesOnly_pure ()
  | cons field rest ih =>
    obtain ⟨hfield, hrest⟩ := List.forall_mem_append.mp hcodecs
    simp only [writeFields, lookup_fieldWriters]
    cases hv : fields.lookup field.name with
    | none => exact (raisesOnly_throw trivial).bind fun _ => ih hrest
    | some v => exact (h _ (Keyed.mem_of_lookup hv) field.codec hfield).bind fun _ => ih hrest

theorem raisesOnly_writePayload {inner : Option Value} (h : ∀ v ∈ inner, v.WritesWithin set)
    (tag : OptionTag) {codec : Codec} (hcodec : set.Resolves codec.keys) :
    RaisesOnly CodecError.LayoutFound (writePayload set tag codec inner) := by
  cases inner with
  | none => exact raisesOnly_emit _
  | some v => exact (raisesOnly_emit _).bind fun _ => h v rfl codec hcodec

theorem raisesOnly_writeSimple (key : String) (names : List String) (variant : String) (n : Nat) :
    RaisesOnly CodecError.LayoutFound (writeSimple key names variant n) := by
  unfold writeSimple
  apply RaisesOnly.check
  · trivial
  · split
    · exact raisesOnly_emit _
    · exact raisesOnly_throw trivial

theorem mem_variantKeys {variants : List VariantCodec} {v : VariantCodec} (hv : v ∈ variants) :
    fieldKeys (v.fields.getD []) ⊆ variantKeys variants :=
  fun _ hkey => List.mem_flatMap.mpr ⟨v, hv, hkey⟩

theorem raisesOnly_writeComplex {payload : Option (List (String × Value))}
    (h : ∀ fields ∈ payload, ∀ f ∈ fields, f.2.WritesWithin set) (key variant : String)
    {variants : List VariantCodec} (hvariants : set.Resolves (variantKeys variants)) :
    RaisesOnly CodecError.LayoutFound
      (writeComplex key variants variant (payload.map (fieldWriters set))) := by
  rw [writeComplex_eq]
  split
  · exact raisesOnly_throw trivial
  · next index _ =>
    refine RaisesOnly.bind (raisesOnly_emit _) fun _ => ?_
    cases hfields : variants[index]?.bind VariantCodec.fields with
    | none =>
      rcases payload with _ | _ | ⟨first, rest⟩
      · exact raisesOnly_pure ()
      · exact raisesOnly_pure ()
      · exact raisesOnly_throw trivial
    | some codecs =>
      obtain ⟨v, hv, hcodecs⟩ := Option.bind_eq_some_iff.mp hfields
      have hkeys := hvariants.subset (mem_variantKeys (List.mem_of_getElem? hv))
      rw [hcodecs] at hkeys
      cases payload with
      | some fields => exact raisesOnly_writeFields (h fields rfl) hkeys
      | none =>
        cases codecs with
        | nil => exact raisesOnly_pure ()
        | cons first rest => exact raisesOnly_throw trivial

namespace LayoutSet.Sound

variable (hset : set.Sound)

include hset

theorem writesWithin_of_target {v : Value} (h : ∀ codec, (∀ key, set.target codec ≠ .missing key) →
    set.Resolves (set.target codec).keys → RaisesOnly CodecError.LayoutFound (v.write set codec)) :
    v.WritesWithin set := by
  intro codec hcodec
  obtain ⟨hfound, hkeys⟩ := hset.target hcodec
  exact h codec hfound hkeys

theorem writesWithin_bool (b : Bool) : (Value.bool b).WritesWithin set := by
  apply hset.writesWithin_of_target
  intro codec hfound _
  rw [Value.write]
  split
  · exact raisesOnly_emit _
  · exact Target.raisesOnly_refuse hfound _

theorem writesWithin_scalar (s : Scalar) (bits : BitVec (8 * s.size)) :
    (Value.scalar s bits).WritesWithin set := by
  apply hset.writesWithin_of_target
  intro codec hfound _
  rw [Value.write]
  split
  · split
    · exact raisesOnly_emit _
    · exact raisesOnly_throw trivial
  · exact Target.raisesOnly_refuse hfound _

theorem writesWithin_bytes (data : List UInt8) : (Value.bytes data).WritesWithin set := by
  apply hset.writesWithin_of_target
  intro codec hfound _
  rw [Value.write]
  split
  · exact (raisesOnly_emitCount _).bind fun _ => raisesOnly_emit _
  · exact Target.raisesOnly_refuse hfound _

theorem writesWithin_string (text : String) : (Value.string text).WritesWithin set := by
  apply hset.writesWithin_of_target
  intro codec hfound _
  rw [Value.write]
  split
  · exact (raisesOnly_emitCount _).bind fun _ => raisesOnly_emit _
  · exact Target.raisesOnly_refuse hfound _

theorem writesWithin_option (tag : OptionTag) {inner : Option Value} (h : ∀ v ∈ inner, v.WritesWithin set) :
    (Value.option tag inner).WritesWithin set := by
  apply hset.writesWithin_of_target
  intro codec hfound hkeys
  rw [Value.write]
  split
  · next ht =>
    rw [ht] at hkeys
    split
    · exact raisesOnly_writePayload h tag hkeys
    · exact raisesOnly_throw trivial
  · exact Target.raisesOnly_refuse hfound _

theorem writesWithin_vec {items : List Value} (h : ∀ v ∈ items, v.WritesWithin set) :
    (Value.vec items).WritesWithin set := by
  apply hset.writesWithin_of_target
  intro codec hfound hkeys
  rw [Value.write]
  split
  · next inner ht =>
    rw [ht] at hkeys
    apply raisesOnly_sized
    exact (raisesOnly_emitCount _).bind fun _ => raisesOnly_writeItems h hkeys
  · exact Target.raisesOnly_refuse hfound _

theorem writesWithin_array {items : List Value} (h : ∀ v ∈ items, v.WritesWithin set) :
    (Value.array items).WritesWithin set := by
  apply hset.writesWithin_of_target
  intro codec hfound hkeys
  rw [Value.write]
  split
  · next inner length ht =>
    rw [ht] at hkeys
    apply RaisesOnly.check
    · trivial
    · apply raisesOnly_sized
      exact raisesOnly_writeItems h hkeys
  · exact Target.raisesOnly_refuse hfound _

theorem writesWithin_struct {fields : List (String × Value)} (h : ∀ f ∈ fields, f.2.WritesWithin set) :
    (Value.struct fields).WritesWithin set := by
  apply hset.writesWithin_of_target
  intro codec hfound hkeys
  rw [Value.write]
  split
  · next ht =>
    rw [ht] at hkeys
    exact raisesOnly_writeFields h hkeys
  · exact Target.raisesOnly_refuse hfound _

theorem writesWithin_enum (variant : String) {payload : Option (List (String × Value))}
    (h : ∀ fields ∈ payload, ∀ f ∈ fields, f.2.WritesWithin set) :
    (Value.enum variant payload).WritesWithin set := by
  apply hset.writesWithin_of_target
  intro codec hfound hkeys
  rw [Value.write_enum]
  split
  · exact raisesOnly_writeSimple _ _ _ _
  · next ht =>
    rw [ht] at hkeys
    exact raisesOnly_writeComplex h _ variant hkeys
  · exact Target.raisesOnly_refuse hfound _

theorem writesWithin (v : Value) : v.WritesWithin set := by
  induction v using Value.induction with
  | bool b => exact hset.writesWithin_bool b
  | scalar s bits => exact hset.writesWithin_scalar s bits
  | bytes data => exact hset.writesWithin_bytes data
  | string text => exact hset.writesWithin_string text
  | option tag inner ih => exact hset.writesWithin_option tag ih
  | vec items ih => exact hset.writesWithin_vec ih
  | array items ih => exact hset.writesWithin_array ih
  | struct fields ih => exact hset.writesWithin_struct ih
  | enum variant payload ih => exact hset.writesWithin_enum variant ih

end LayoutSet.Sound

end Writing

section Reading

variable {set : LayoutSet} {α : Type}

theorem raisesOnly_bytes (count : Nat) : RaisesOnly CodecError.LayoutFound (Reader.bytes count) := by
  refine RaisesOnly.bind raisesOnly_get fun r => ?_
  split
  · exact (raisesOnly_set _).bind fun _ => raisesOnly_pure _
  · exact raisesOnly_throw trivial

theorem raisesOnly_number (size : Nat) : RaisesOnly CodecError.LayoutFound (Reader.number size) :=
  (raisesOnly_bytes size).map _

theorem raisesOnly_bool : RaisesOnly CodecError.LayoutFound Reader.bool := by
  refine RaisesOnly.bind (raisesOnly_number 1) fun n => ?_
  split
  · exact raisesOnly_pure _
  · exact raisesOnly_pure _
  · exact raisesOnly_throw trivial

theorem raisesOnly_ensure (count least : Nat) :
    RaisesOnly CodecError.LayoutFound (Reader.ensure count least) := by
  refine RaisesOnly.bind raisesOnly_get fun r => ?_
  split
  · exact raisesOnly_throw trivial
  · exact raisesOnly_pure ()

theorem raisesOnly_count (least : Nat) : RaisesOnly CodecError.LayoutFound (Reader.count least) :=
  (raisesOnly_number 4).bind fun n => (raisesOnly_ensure n least).bind fun _ => raisesOnly_pure n

theorem raisesOnly_string : RaisesOnly CodecError.LayoutFound Reader.string := by
  refine RaisesOnly.bind (raisesOnly_count 1) fun n => ?_
  refine RaisesOnly.bind (raisesOnly_bytes n) fun data => ?_
  split
  · exact raisesOnly_pure _
  · exact raisesOnly_throw trivial

theorem raisesOnly_discriminator (d : Discriminator) :
    RaisesOnly CodecError.LayoutFound (Reader.discriminator d) := by
  refine RaisesOnly.bind (raisesOnly_bytes 8) fun data => ?_
  split
  · split
    · exact raisesOnly_pure ()
    · exact raisesOnly_throw trivial
  · exact raisesOnly_throw trivial

theorem raisesOnly_finished : RaisesOnly CodecError.LayoutFound Reader.finished := by
  refine RaisesOnly.bind raisesOnly_get fun r => ?_
  split
  · exact raisesOnly_throw trivial
  · exact raisesOnly_pure ()

theorem raisesOnly_times {decoder : Decoder α} (h : RaisesOnly CodecError.LayoutFound decoder) (count : Nat) :
    RaisesOnly CodecError.LayoutFound (decoder.times count) := by
  induction count with
  | zero => exact raisesOnly_pure []
  | succ count ih => exact h.bind fun item => ih.map (item :: ·)

theorem Schema.Primitive.raisesOnly_read (p : Primitive) : RaisesOnly CodecError.LayoutFound p.read := by
  cases p with
  | bool => exact raisesOnly_bool.map _
  | scalar s => exact (raisesOnly_bytes s.size).map _
  | bytes => exact (raisesOnly_count 1).bind fun n => (raisesOnly_bytes n).map _
  | string => exact raisesOnly_string.map _

/-- Reading under a codec with layouts does not miss one. -/
def ReadsWithin (set : LayoutSet) (read : Codec → Decoder Value) : Prop :=
  ∀ codec, set.Resolves codec.keys → RaisesOnly CodecError.LayoutFound (read codec)

variable {read : Codec → Decoder Value}

theorem ReadsWithin.fields (h : ReadsWithin set read) {codecs : List FieldCodec}
    (hcodecs : set.Resolves (fieldKeys codecs)) :
    RaisesOnly CodecError.LayoutFound (readFields read codecs) := by
  induction codecs with
  | nil => exact raisesOnly_pure []
  | cons field rest ih =>
    obtain ⟨hfield, hrest⟩ := List.forall_mem_append.mp hcodecs
    exact (h field.codec hfield).bind fun value => (ih hrest).map ((field.name, value) :: ·)

theorem ReadsWithin.layout (h : ReadsWithin set read) (key : String) {layout : Layout}
    (hlayout : set.Resolves layout.keys) : RaisesOnly CodecError.LayoutFound (layout.read read key) := by
  cases layout with
  | struct fields => exact (h.fields hlayout).map _
  | simpleEnum names =>
    refine RaisesOnly.bind (raisesOnly_number 1) fun index => ?_
    split
    · exact raisesOnly_pure _
    · exact raisesOnly_throw trivial
  | complexEnum variants =>
    refine RaisesOnly.bind (raisesOnly_number 1) fun index => ?_
    split
    · exact raisesOnly_pure _
    · next name fields hv =>
      have hfields : set.Resolves (fieldKeys fields) := hlayout.subset (mem_variantKeys (List.mem_of_getElem? hv))
      exact (h.fields hfields).map _
    · exact raisesOnly_throw trivial
  | aliasOf codec => exact h codec hlayout

theorem LayoutSet.Sound.readsWithin (hset : set.Sound) (levels : Nat) : ReadsWithin set (set.readAt levels) := by
  induction levels with
  | zero => exact fun codec _ => raisesOnly_throw trivial
  | succ levels ih =>
    intro codec hcodec
    cases codec with
    | prim p => exact p.raisesOnly_read
    | option tag inner =>
      refine RaisesOnly.bind (raisesOnly_number tag.size) fun n => ?_
      split
      · exact raisesOnly_pure _
      · exact (ih inner hcodec).map _
      · exact raisesOnly_throw trivial
    | vec inner =>
      refine RaisesOnly.bind (raisesOnly_count (set.minSize inner)) fun count => ?_
      apply raisesOnly_sized
      exact (raisesOnly_times (ih inner hcodec) count).map Value.vec
    | array inner length =>
      rw [LayoutSet.readAt]
      apply raisesOnly_sized
      refine (raisesOnly_ensure length (set.minSize inner)).bind fun _ => ?_
      exact (raisesOnly_times (ih inner hcodec) length).map Value.array
    | defined key =>
      obtain ⟨layout, hlayout⟩ := LayoutSet.get?_of_contains (hcodec key (List.mem_singleton_self key))
      rw [LayoutSet.readAt, hlayout]
      exact ih.layout key (hset.resolves hlayout)

end Reading

end WireSchema
