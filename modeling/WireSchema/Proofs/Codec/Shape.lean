import WireSchema.Proofs.Codec.Canonical
import WireSchema.Proofs.Codec.RoundTrip

/-!
# Values shaped like their layouts

A value is shaped like its layout when nothing is left to settle: at every level
it has one value for each field, in order and under its name, and a payload
exactly if the variant has one. Where names are distinct such a value is its own
normal form. Where they are not it need not be, because of two fields with one
name the first is looked up twice.
-/

namespace WireSchema

set_option autoImplicit false

open Schema

mutual

/-- How long an array is, and which numbers and texts fit, is left to the encoder. -/
def Value.Shaped (set : LayoutSet) : Value → Codec → Prop
  | .option _ inner, codec =>
    match set.target codec with
    | .plain (.option _ inside) => payloadShaped set inside inner
    | _ => False
  | .vec items, codec =>
    match set.target codec with
    | .plain (.vec inside) => itemsShaped set inside items
    | _ => False
  | .array items, codec =>
    match set.target codec with
    | .plain (.array inside _) => itemsShaped set inside items
    | _ => False
  | .struct fields, codec =>
    match set.target codec with
    | .layout _ (.struct codecs) => fieldsShaped set codecs fields
    | _ => False
  | .enum variant none, codec =>
    match set.target codec with
    | .layout _ (.simpleEnum names) => variant ∈ names
    | .layout _ (.complexEnum variants) => ⟨variant, none⟩ ∈ variants
    | _ => False
  | .enum variant (some fields), codec =>
    match set.target codec with
    | .layout _ (.complexEnum variants) =>
      ∃ codecs, ⟨variant, some codecs⟩ ∈ variants ∧ fieldsShaped set codecs fields
    | _ => False
  | .bool _, codec => set.target codec = .plain (.prim .bool)
  | .scalar s _, codec => set.target codec = .plain (.prim (.scalar s))
  | .bytes _, codec => set.target codec = .plain (.prim .bytes)
  | .string _, codec => set.target codec = .plain (.prim .string)

def payloadShaped (set : LayoutSet) (codec : Codec) : Option Value → Prop
  | none => True
  | some inner => inner.Shaped set codec

def itemsShaped (set : LayoutSet) (codec : Codec) : List Value → Prop
  | [] => True
  | item :: rest => item.Shaped set codec ∧ itemsShaped set codec rest

/-- One value for each field. -/
def fieldsShaped (set : LayoutSet) (codecs : List FieldCodec) : List (String × Value) → Prop
  | [] => codecs = []
  | (name, value) :: rest =>
    match codecs with
    | [] => False
    | field :: codecs => field.name = name ∧ value.Shaped set field.codec ∧ fieldsShaped set codecs rest

end

/-- The first variant of a name is the only one where names are distinct. -/
theorem payloadCodecs_of_mem {variants : List VariantCodec} (h : (variants.map VariantCodec.name).Nodup)
    {v : VariantCodec} (hv : v ∈ variants) : payloadCodecs variants v.name = v.fields := by
  obtain ⟨index, hindex⟩ := List.mem_iff_getElem?.mp hv
  exact (payloadCodecs_eq (findIdx?_of_nodup h hindex) hindex).2

section Shaped

variable {set : LayoutSet}

/-- Shaped values are their own normal forms. -/
def LayoutSet.Settles (set : LayoutSet) (v : Value) : Prop :=
  ∀ codec, v.Shaped set codec → v.normal set codec = v

theorem normalItems_eq_self {items : List Value} (ih : ∀ v ∈ items, set.Settles v) {codec : Codec}
    (h : itemsShaped set codec items) : normalItems set codec items = items := by
  induction items with
  | nil => rfl
  | cons item rest ihr =>
    obtain ⟨hitem, hrest⟩ := h
    rw [normalItems, ih item List.mem_cons_self codec hitem,
      ihr (fun v hv => ih v (List.mem_cons_of_mem _ hv)) hrest]

theorem names_of_fieldsShaped {codecs : List FieldCodec} {fields : List (String × Value)}
    (h : fieldsShaped set codecs fields) : fields.map Prod.fst = codecs.map FieldCodec.name := by
  induction fields generalizing codecs with
  | nil =>
    rw [fieldsShaped] at h
    subst h
    rfl
  | cons f rest ih =>
    cases codecs with
    | nil => exact h.elim
    | cons field codecs =>
      obtain ⟨hname, -, hrest⟩ := h
      rw [List.map_cons, List.map_cons, hname, ih hrest]

/-- The induction goes over a part of the fields, while the names are looked up in all of them. -/
theorem pickFields_eq_self {fields part : List (String × Value)} (ih : ∀ f ∈ part, set.Settles f.2)
    (hlookup : ∀ f ∈ part, fields.lookup f.1 = some f.2) {codecs : List FieldCodec}
    (h : fieldsShaped set codecs part) : pickFields (normalFields set fields) codecs = part := by
  induction part generalizing codecs with
  | nil =>
    rw [fieldsShaped] at h
    subst h
    rfl
  | cons f rest ihr =>
    cases codecs with
    | nil => exact h.elim
    | cons field codecs =>
      obtain ⟨name, v⟩ := f
      obtain ⟨rfl, hv, hrest⟩ := h
      have hfirst : fields.lookup field.name = some v := hlookup _ List.mem_cons_self
      have hnormal : v.normal set field.codec = v := ih _ List.mem_cons_self field.codec hv
      have hrest := ihr (fun f hf => ih f (List.mem_cons_of_mem _ hf))
        (fun f hf => hlookup f (List.mem_cons_of_mem _ hf)) hrest
      rw [pickFields, lookup_normalFields, hfirst]
      dsimp only [Option.map_some]
      rw [hnormal, hrest]

theorem normalFields_eq_self {fields : List (String × Value)} (ih : ∀ f ∈ fields, set.Settles f.2)
    {codecs : List FieldCodec} (hnames : (codecs.map FieldCodec.name).Nodup)
    (h : fieldsShaped set codecs fields) : pickFields (normalFields set fields) codecs = fields := by
  rw [← names_of_fieldsShaped h] at hnames
  exact pickFields_eq_self ih (fun f hf => lookup_of_nodup hnames hf) h

theorem distinctNames_of_target (hset : set.DistinctNames) {codec : Codec} {key : String} {layout : Layout}
    (h : set.target codec = .layout key layout) : layout.DistinctNames :=
  hset _ (Keyed.mem_of_lookup (LayoutSet.get?_of_target h))

theorem settles_struct (hset : set.DistinctNames) {fields : List (String × Value)}
    (ih : ∀ f ∈ fields, set.Settles f.2) : set.Settles (.struct fields) := by
  intro codec h
  rw [Value.Shaped] at h
  split at h
  · next key codecs ht =>
    rw [Value.normal, ht]
    dsimp only
    rw [normalFields_eq_self ih (distinctNames_of_target hset ht) h]
  · exact h.elim

theorem settles_enum (hset : set.DistinctNames) (variant : String)
    {payload : Option (List (String × Value))} (ih : ∀ fields ∈ payload, ∀ f ∈ fields, set.Settles f.2) :
    set.Settles (.enum variant payload) := by
  intro codec h
  cases payload with
  | none =>
    rw [Value.Shaped] at h
    split at h
    · next key names ht => rw [Value.normal_enum, ht]
    · next key variants ht =>
      rw [Value.normal_enum, ht]
      dsimp only
      rw [payloadCodecs_of_mem (distinctNames_of_target hset ht).1 h]
      rfl
    · exact h.elim
  | some fields =>
    rw [Value.Shaped] at h
    split at h
    · next key variants ht =>
      obtain ⟨codecs, hvariant, hfields⟩ := h
      obtain ⟨hvariants, hcodecs⟩ := distinctNames_of_target hset ht
      have hnames : (codecs.map FieldCodec.name).Nodup := hcodecs _ hvariant
      rw [Value.normal_enum, ht]
      dsimp only
      rw [payloadCodecs_of_mem hvariants hvariant]
      dsimp only [Option.map_some, Option.getD_some]
      rw [normalFields_eq_self (ih fields rfl) hnames hfields]
    · exact h.elim

/-- Where names are distinct a value that is shaped like its layout is its normal form. -/
theorem Value.normal_eq_self (hset : set.DistinctNames) (v : Value) : set.Settles v := by
  induction v using Value.induction with
  | bool b => exact fun _ _ => rfl
  | scalar s bits => exact fun _ _ => rfl
  | bytes data => exact fun _ _ => rfl
  | string text => exact fun _ _ => rfl
  | option tag inner ih =>
    intro codec h
    rw [Value.Shaped] at h
    split at h
    · next ht =>
      rw [Value.normal, ht]
      cases inner with
      | none => rfl
      | some v =>
        dsimp only
        rw [normalPayload, ih v rfl _ h]
    · exact h.elim
  | vec items ih =>
    intro codec h
    rw [Value.Shaped] at h
    split at h
    · next ht =>
      rw [Value.normal, ht]
      dsimp only
      rw [normalItems_eq_self ih h]
    · exact h.elim
  | array items ih =>
    intro codec h
    rw [Value.Shaped] at h
    split at h
    · next ht =>
      rw [Value.normal, ht]
      dsimp only
      rw [normalItems_eq_self ih h]
    · exact h.elim
  | struct fields ih => exact settles_struct hset ih
  | enum variant payload ih => exact settles_enum hset variant ih

end Shaped

end WireSchema
