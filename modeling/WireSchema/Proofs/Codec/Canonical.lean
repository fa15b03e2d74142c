import WireSchema.Proofs.Codec.Alias
import WireSchema.Proofs.Codec.Output
import WireSchema.Proofs.Codec.Reading

/-!
# Values have one encoding

Whatever is read was written so: the bytes that a reading takes are those that
the value is written as. Names must be distinct within a struct, a payload and
an enumeration, because the encoder takes the first of a name. The induction is
on the levels of the reading; where a codec is an alias, the encoder gets to the
same target because the reading got there.
-/

namespace WireSchema

set_option autoImplicit false

open Schema Encoder Decoder

def Layout.DistinctNames : Layout → Prop
  | .struct fields => (fields.map FieldCodec.name).Nodup
  | .simpleEnum names => names.Nodup
  | .complexEnum variants => (variants.map VariantCodec.name).Nodup ∧
      ∀ v ∈ variants, ((v.fields.getD []).map FieldCodec.name).Nodup
  | .aliasOf _ => True

instance (layout : Layout) : Decidable layout.DistinctNames :=
  match layout with
  | .struct fields => inferInstanceAs (Decidable (fields.map FieldCodec.name).Nodup)
  | .simpleEnum names => inferInstanceAs (Decidable names.Nodup)
  | .complexEnum variants => inferInstanceAs (Decidable ((variants.map VariantCodec.name).Nodup ∧
      ∀ v ∈ variants, ((v.fields.getD []).map FieldCodec.name).Nodup))
  | .aliasOf _ => inferInstanceAs (Decidable True)

/-- No two fields beside each other have one name, and no two variants of an enumeration. -/
def LayoutSet.DistinctNames (set : LayoutSet) : Prop :=
  ∀ entry ∈ set.entries, entry.2.DistinctNames

instance (set : LayoutSet) : Decidable set.DistinctNames :=
  inferInstanceAs (Decidable (∀ entry ∈ set.entries, entry.2.DistinctNames))

theorem findIdx?_of_nodup {α : Type} {items : List α} {name : α → String}
    (h : (items.map name).Nodup) {index : Nat} {item : α} (hitem : items[index]? = some item) :
    items.findIdx? (fun a => name a = name item) = some index := by
  obtain ⟨hlt, rfl⟩ := List.getElem?_eq_some_iff.mp hitem
  refine List.findIdx?_eq_some_iff_getElem.mpr ⟨hlt, by simp, fun j hj => ?_⟩
  have hne := List.pairwise_iff_getElem.mp h j index (by simp; omega) (by simpa using hlt) hj
  simpa using hne

theorem lookup_of_nodup {α : Type} {entries : List (String × α)}
    (h : (entries.map Prod.fst).Nodup) {name : String} {a : α} (hmem : (name, a) ∈ entries) :
    entries.lookup name = some a := by
  induction entries with
  | nil => cases hmem
  | cons entry rest ih =>
    obtain ⟨n, b⟩ := entry
    obtain ⟨hn, hrest⟩ := List.nodup_cons.mp h
    rcases List.mem_cons.mp hmem with heq | hlater
    · cases heq
      simp
    · have hname : name ∈ rest.map Prod.fst := List.mem_map_of_mem hlater
      have hne : (name == n) = false := by
        rw [beq_eq_false_iff_ne]
        exact fun heq => hn (heq ▸ hname)
      rw [List.lookup_cons, hne]
      exact ih hrest hlater

/-- A bit pattern loses nothing of as many bytes as it has room for. -/
theorem leBytes_ofNat {front : List UInt8} {size : Nat} (h : front.length = size) :
    Bytes.leBytes size (BitVec.ofNat (8 * size) (Bytes.leNat front)).toNat = front := by
  have hlt : Bytes.leNat front < 2 ^ (8 * size) := by
    rw [← h, Nat.pow_mul]
    exact Bytes.leNat_lt front
  rw [BitVec.toNat_ofNat, Nat.mod_eq_of_lt hlt, ← h, Bytes.leBytes_leNat]

namespace LayoutSet

variable {set : LayoutSet}

theorem write_eq_of_target_eq {codec other : Codec} (h : set.target codec = set.target other)
    (v : Value) : v.write set codec = v.write set other := by
  cases v with
  | enum variant payload => rw [Value.write_enum, Value.write_enum, h]
  | _ => rw [Value.write, Value.write, h]

/-- The bytes are what the value is written as, and the aliases of the codec come to an end. -/
def WritesBack (set : LayoutSet) (codec : Codec) (bytes : List UInt8) (v : Value) : Prop :=
  Writes (v.write set codec) bytes ∧ ∃ keys t, AliasChain set keys codec t

theorem writesBack_of_plain {codec : Codec} {bytes : List UInt8} {v : Value}
    (hplain : ∀ key, codec ≠ .defined key)
    (h : set.target codec = .plain codec → Writes (v.write set codec) bytes) :
    set.WritesBack codec bytes v :=
  have hchain : AliasChain set [] codec (.plain codec) := .plain hplain
  ⟨h hchain.target, _, _, hchain⟩

theorem yields_prim (p : Primitive) : Yields p.read (set.WritesBack (.prim p)) := by
  have hback {bytes : List UInt8} {v : Value}
      (h : set.target (.prim p) = .plain (.prim p) → Writes (v.write set (.prim p)) bytes) :
      set.WritesBack (.prim p) bytes v := writesBack_of_plain (fun key h => by cases h) h
  cases p with
  | bool =>
    refine yields_bind (Reader.yields_bool.mono ?_)
    rintro _ b rfl
    refine yields_pure (hback fun ht => ?_)
    rw [Value.write, ht]
    exact writes_emit _
  | scalar s =>
    refine yields_bind ((Reader.yields_bytes s.size).mono ?_)
    rintro _ front ⟨hlen, rfl⟩
    refine yields_pure (hback fun ht => ?_)
    rw [Value.ofBytes, Value.ofNat, Value.write, ht, List.append_nil]
    simp only [if_true]
    rw [leBytes_ofNat hlen]
    exact writes_emit front
  | bytes =>
    refine yields_bind ((Reader.yields_count 1).mono ?_)
    rintro _ n ⟨rfl, hn⟩
    refine yields_bind ((Reader.yields_bytes n).mono ?_)
    rintro front _ ⟨rfl, rfl⟩
    refine yields_pure (hback fun ht => ?_)
    rw [Value.write, ht, List.append_nil]
    exact (writes_emitCount_iff.mpr ⟨hn, rfl⟩).bind (writes_emit _)
  | string =>
    refine yields_bind (Reader.yields_string.mono ?_)
    rintro _ text ⟨rfl, hn⟩
    refine yields_pure (hback fun ht => ?_)
    rw [Value.write, ht, List.append_nil]
    exact (writes_emitCount_iff.mpr ⟨hn, rfl⟩).bind (writes_emit _)

theorem yields_items {codec : Codec} {d : Decoder Value}
    (hd : d.Yields (set.WritesBack codec)) (count : Nat) :
    Yields (d.times count) fun bytes items =>
      items.length = count ∧ Writes (writeItems set codec items) bytes := by
  induction count with
  | zero => exact yields_pure ⟨rfl, writes_pure⟩
  | succ count ih =>
    refine yields_bind (hd.mono ?_)
    rintro x item ⟨hx, -⟩
    refine yields_bind (ih.mono ?_)
    rintro y items ⟨rfl, hy⟩
    refine yields_pure ⟨rfl, ?_⟩
    rw [writeItems, List.append_nil]
    exact hx.bind hy

/-- Fields that are read in order are written alike by any list that holds them. -/
theorem yields_fields {read : Codec → Decoder Value}
    (hread : ∀ codec, (read codec).Yields (set.WritesBack codec)) (fields : List FieldCodec) :
    Yields (readFields read fields) fun bytes values =>
      values.map Prod.fst = fields.map FieldCodec.name ∧
        ∀ all : List (String × Value), (∀ f ∈ values, all.lookup f.1 = some f.2) →
          Writes (writeFields (fieldWriters set all) fields) bytes := by
  induction fields with
  | nil => exact yields_pure ⟨rfl, fun _ _ => writes_pure⟩
  | cons field rest ih =>
    refine yields_bind ((hread field.codec).mono ?_)
    rintro x value ⟨hx, -⟩
    refine yields_bind (ih.mono ?_)
    rintro y values ⟨hnames, hy⟩
    refine yields_pure ⟨by simp [hnames], fun all hall => ?_⟩
    obtain ⟨hfirst, hrest⟩ := List.forall_mem_cons.mp hall
    simp only [writeFields, lookup_fieldWriters, hfirst, Option.map_some, List.append_nil]
    exact hx.bind (hy all hrest)

theorem writes_fields {fields : List FieldCodec} {values : List (String × Value)} {bytes : List UInt8}
    (hdistinct : (fields.map FieldCodec.name).Nodup)
    (hnames : values.map Prod.fst = fields.map FieldCodec.name)
    (h : ∀ all : List (String × Value), (∀ f ∈ values, all.lookup f.1 = some f.2) →
      Writes (writeFields (fieldWriters set all) fields) bytes) :
    Writes (writeFields (fieldWriters set values) fields) bytes := by
  rw [← hnames] at hdistinct
  exact h values fun f hf => lookup_of_nodup hdistinct hf

theorem writesBack_of_layout {key : String} {layout : Layout} {bytes : List UInt8} {v : Value}
    (hkey : set.get? key = some layout) (hlayout : ∀ inner, layout ≠ .aliasOf inner)
    (h : set.target (.defined key) = .layout key layout → Writes (v.write set (.defined key)) bytes) :
    set.WritesBack (.defined key) bytes v :=
  have hchain : AliasChain set [] (.defined key) (.layout key layout) := .layout hkey hlayout
  ⟨h hchain.target, _, _, hchain⟩

theorem writesBack_of_alias {key : String} {inner : Codec} {bytes : List UInt8} {v : Value}
    (hkey : set.get? key = some (.aliasOf inner)) (h : set.WritesBack inner bytes v) :
    set.WritesBack (.defined key) bytes v := by
  obtain ⟨hwrites, keys, t, hchain⟩ := h
  have hstep : AliasChain set (key :: keys) (.defined key) t := .step hkey hchain
  refine ⟨?_, _, _, hstep⟩
  rwa [write_eq_of_target_eq (hstep.target.trans hchain.target.symm)]

theorem yields_layout (hset : set.DistinctNames) {read : Codec → Decoder Value}
    (hread : ∀ codec, (read codec).Yields (set.WritesBack codec)) {key : String} {layout : Layout}
    (hkey : set.get? key = some layout) :
    Yields (layout.read read key) (set.WritesBack (.defined key)) := by
  have hdistinct := hset (key, layout) (Keyed.mem_of_lookup hkey)
  cases layout with
  | struct fields =>
    refine yields_bind ((yields_fields hread fields).mono ?_)
    rintro bytes values ⟨hnames, hwrites⟩
    refine yields_pure (writesBack_of_layout hkey (fun _ h => by cases h) fun ht => ?_)
    rw [Value.write, ht, List.append_nil]
    exact writes_fields hdistinct hnames hwrites
  | simpleEnum names =>
    refine yields_bind ((Reader.yields_number 1).mono ?_)
    rintro _ index ⟨rfl, -⟩
    split
    · next name hname =>
      refine yields_pure (writesBack_of_layout hkey (fun _ h => by cases h) fun ht => ?_)
      rw [Value.write_enum, ht]
      refine writes_writeSimple_iff.mpr ⟨rfl, index, ?_, by rw [List.append_nil, leBytes_one]⟩
      have hids : (names.map id).Nodup := by rwa [List.map_id]
      exact findIdx?_of_nodup hids hname
    · exact yields_throw _
  | complexEnum variants =>
    obtain ⟨hnames, hpayloads⟩ := hdistinct
    refine yields_bind ((Reader.yields_number 1).mono ?_)
    rintro _ index ⟨rfl, -⟩
    split
    · next name hv =>
      refine yields_pure (writesBack_of_layout hkey (fun _ h => by cases h) fun ht => ?_)
      rw [Value.write_enum, ht, leBytes_one]
      exact writes_writeComplex (findIdx?_of_nodup hnames hv) hv writes_pure
    · next name fields hv =>
      refine yields_bind ((yields_fields hread fields).mono ?_)
      rintro bytes values ⟨hfields, hwrites⟩
      refine yields_pure (writesBack_of_layout hkey (fun _ h => by cases h) fun ht => ?_)
      rw [Value.write_enum, ht, leBytes_one, List.append_nil]
      have hpayload := hpayloads _ (List.mem_of_getElem? hv)
      exact writes_writeComplex (findIdx?_of_nodup hnames hv) hv (writes_fields hpayload hfields hwrites)
    · exact yields_throw _
  | aliasOf inner => exact (hread inner).mono fun bytes v h => writesBack_of_alias hkey h

theorem yields_writesBack (hset : set.DistinctNames) (levels : Nat) :
    ∀ codec, Yields (set.readAt levels codec) (set.WritesBack codec) := by
  induction levels with
  | zero => exact fun codec => yields_throw _
  | succ levels ih =>
    intro codec
    cases codec with
    | prim p => exact yields_prim p
    | option tag inner =>
      refine yields_bind ((Reader.yields_number tag.size).mono ?_)
      rintro _ n ⟨rfl, -⟩
      split
      · refine yields_pure (writesBack_of_plain (fun _ h => by cases h) fun ht => ?_)
        rw [Value.write, ht, List.append_nil]
        simp only [if_true]
        exact writes_emit _
      · refine yields_bind ((ih inner).mono ?_)
        rintro bytes v ⟨hv, -⟩
        refine yields_pure (writesBack_of_plain (fun _ h => by cases h) fun ht => ?_)
        rw [Value.write, ht, List.append_nil]
        simp only [if_true]
        exact (writes_emit _).bind hv
      · exact yields_throw _
    | vec inner =>
      refine yields_bind ((Reader.yields_count _).mono ?_)
      rintro _ count ⟨rfl, hcount⟩
      dsimp only
      split
      · exact yields_bind (yields_throw _)
      · next hzero =>
        refine yields_bind ((yields_items (ih inner) count).mono ?_)
        rintro bytes items ⟨rfl, hitems⟩
        refine yields_pure (writesBack_of_plain (fun _ h => by cases h) fun ht => ?_)
        rw [Value.write, ht, List.append_nil]
        simp only
        exact (writes_emitCount_iff.mpr ⟨hcount, rfl⟩).bind hitems
    | array inner length =>
      rw [readAt]
      dsimp only
      split
      · exact yields_bind (yields_throw _)
      · next hzero =>
        refine yields_bind ((Reader.yields_ensure _ _).mono ?_)
        rintro _ _ rfl
        refine yields_bind ((yields_items (ih inner) length).mono ?_)
        rintro bytes items ⟨rfl, hitems⟩
        refine yields_pure (writesBack_of_plain (fun _ h => by cases h) fun ht => ?_)
        rw [Value.write, ht, List.append_nil, List.nil_append]
        simpa only [ne_eq, not_true_eq_false, if_false, hzero] using hitems
    | defined key =>
      rw [readAt]
      cases hkey : set.get? key with
      | none => exact yields_throw _
      | some layout => exact yields_layout hset ih hkey

theorem encode_of_run (hset : set.DistinctNames) {codec : Codec} {r s : Reader} {v : Value}
    (h : (set.decodeFrom codec).run r = (.ok v, s)) :
    ∃ bytes, r.rest = bytes ++ s.rest ∧ s.index = r.index + bytes.length ∧ set.encode codec v = .ok bytes := by
  obtain ⟨bytes, hrest, hindex, hwrites, -⟩ := yields_writesBack hset _ codec r v s h
  exact ⟨bytes, hrest, hindex, hwrites.bytes_eq⟩

theorem encode_of_decode (hset : set.DistinctNames) {codec : Codec} {data : List UInt8} {v : Value}
    (h : set.decode codec data = .ok v) : set.encode codec v = .ok data := by
  rw [decode_eq] at h
  rcases hrun : (set.decodeFrom codec).run (Reader.ofBytes data) with ⟨error | value, r⟩
  · rw [hrun] at h
    cases h
  · rw [hrun] at h
    dsimp only at h
    split at h
    · next hempty =>
      cases h
      obtain ⟨bytes, hrest, -, hencode⟩ := encode_of_run hset hrun
      have hdata : data = bytes ++ r.rest := hrest
      rw [List.isEmpty_iff.mp hempty, List.append_nil] at hdata
      rw [hdata]
      exact hencode
    · cases h

/-- What is read from a place in some data encodes to the bytes between there and where the reading
stopped; so data that decodes in full to one value is one list of bytes. -/
theorem canonical (hset : set.DistinctNames) (codec : Codec) :
    (∀ (data : List UInt8) (i : Nat) (v : Value) (r : Reader),
      (set.decodeFrom codec).run ⟨i, data.drop i⟩ = (.ok v, r) →
        ∃ j, i ≤ j ∧ r = ⟨j, data.drop j⟩ ∧ set.encode codec v = .ok ((data.drop i).take (j - i)))
    ∧ ∀ (data other : List UInt8) (v : Value),
      set.decode codec data = .ok v → set.decode codec other = .ok v → data = other := by
  constructor
  · intro data i v r h
    obtain ⟨bytes, hrest, hindex, hencode⟩ := encode_of_run hset h
    obtain ⟨j, rest⟩ := r
    dsimp only at hrest hindex
    subst hindex
    refine ⟨i + bytes.length, Nat.le_add_right _ _, ?_, ?_⟩
    · rw [← List.drop_drop, hrest, List.drop_left]
    · rw [Nat.add_sub_cancel_left, hrest, List.take_left]
      exact hencode
  · intro data other v hdata hother
    have h := (encode_of_decode hset hdata).symm.trans (encode_of_decode hset hother)
    exact Except.ok.inj h

/-- A value in the middle of some data, read through an alias. -/
theorem canonical_middle :
    let set : LayoutSet := ⟨[("Id", .aliasOf (.prim (.scalar .u8))),
      ("Pair", .struct [⟨"a", .defined "Id"⟩, ⟨"b", .option .byte (.prim .bool)⟩])]⟩
    let data : List UInt8 := [9, 7, 1, 1, 5]
    let v : Value := .struct [("a", .ofNat .u8 7), ("b", .option .byte (some (.bool true)))]
    set.DistinctNames ∧ (set.decodeFrom (.defined "Pair")).run ⟨1, data.drop 1⟩ = (.ok v, ⟨4, [5]⟩)
      ∧ ∃ j, 1 ≤ j ∧ (⟨4, [5]⟩ : Reader) = ⟨j, data.drop j⟩
        ∧ set.encode (.defined "Pair") v = .ok ((data.drop 1).take (j - 1)) := by
  intro set data v
  have hset : set.DistinctNames := by decide
  have hrun : (set.decodeFrom (.defined "Pair")).run ⟨1, data.drop 1⟩ = (.ok v, ⟨4, [5]⟩) := rfl
  exact ⟨hset, hrun, (canonical hset (.defined "Pair")).1 data 1 v ⟨4, [5]⟩ hrun⟩

end LayoutSet

end WireSchema
