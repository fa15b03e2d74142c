import WireSchema.Codec.Encoder
import WireSchema.Proofs.Codec.Induction
import WireSchema.Proofs.Entries
import WireSchema.Proofs.Step

/-!
# What an encoder writes

An encoder built from `emit` and `throw` appends the same bytes to every buffer
and ends the same way on all of them, so it is known by its output. Writing a
value under any codec is such an encoder.
-/

namespace WireSchema

set_option autoImplicit false

open Schema

namespace Encoder

/-- The encoder appends these bytes to any buffer, with this result. -/
def Does (e : Encoder) (bytes : List UInt8) (result : Except CodecError Unit) : Prop :=
  ∀ buffer, e.run buffer = (result, buffer ++ bytes.toArray)

/-- The encoder succeeds on any buffer and appends these bytes. -/
def Writes (e : Encoder) (bytes : List UInt8) : Prop := e.Does bytes (.ok ())

def Appends (e : Encoder) : Prop := ∃ bytes result, e.Does bytes result

variable {a b : Encoder} {x y bytes : List UInt8} {error : CodecError}
  {result : Except CodecError Unit}

theorem Does.unique {r s : Except CodecError Unit} (hx : a.Does x r) (hy : a.Does y s) :
    x = y ∧ r = s := by
  have h : (r, #[] ++ x.toArray) = (s, #[] ++ y.toArray) := (hx #[]).symm.trans (hy #[])
  simpa [and_comm] using h

theorem writes_emit (bytes : List UInt8) : (emit bytes).Writes bytes := by
  intro buffer
  show (Except.ok (), bytes.foldl Array.push buffer) = _
  rw [List.foldl_push_eq_append']

theorem writes_pure : Writes (pure ()) [] := by
  intro buffer
  simp

theorem does_throw (error : CodecError) : Does (throw error) [] (.error error) := by
  intro buffer
  simp

theorem Writes.bind (ha : a.Writes x) (hb : b.Does y result) :
    Does (do a; b) (x ++ y) result := by
  intro buffer
  rw [Step.run_bind_ok (ha buffer), hb]
  simp [Array.append_assoc]

theorem Does.bind_error (ha : a.Does x (.error error)) :
    Does (do a; b) x (.error error) := by
  intro buffer
  rw [Step.run_bind_error (ha buffer)]

theorem Appends.bind (ha : a.Appends) (hb : b.Appends) : Appends (do a; b) := by
  obtain ⟨x, r, hx⟩ := ha
  obtain ⟨y, s, hy⟩ := hb
  cases r with
  | error e => exact ⟨x, .error e, hx.bind_error⟩
  | ok _ => exact ⟨x ++ y, s, Writes.bind hx hy⟩

theorem Appends.writes_bind (ha : a.Appends) (hb : b.Appends)
    (h : Writes (do a; b) bytes) :
    ∃ x y, a.Writes x ∧ b.Writes y ∧ bytes = x ++ y := by
  obtain ⟨x, r, hx⟩ := ha
  obtain ⟨y, s, hy⟩ := hb
  cases r with
  | error e => cases (Does.unique h hx.bind_error).2
  | ok _ =>
    obtain ⟨rfl, rfl⟩ := Does.unique h (Writes.bind hx hy)
    exact ⟨x, y, hx, hy, rfl⟩

theorem not_writes_throw (error : CodecError) : ¬ Writes (throw error) bytes :=
  fun h => by cases (Does.unique h (does_throw error)).2

theorem appends_emit (bytes : List UInt8) : (emit bytes).Appends := ⟨_, _, writes_emit bytes⟩

theorem appends_throw (error : CodecError) : Appends (throw error) :=
  ⟨_, _, does_throw error⟩

theorem appends_pure : Appends (pure ()) := ⟨_, _, writes_pure⟩

theorem not_writes_throw_bind : ¬ Writes (do throw error; b) bytes :=
  fun h => by cases (Does.unique h (does_throw error).bind_error).2

section Check

variable {c : Prop} [Decidable c]

theorem Appends.check (h : b.Appends) : Appends (do
    if c then
      throw error
    b) := by
  by_cases hc : c
  · simp only [hc, if_true]
    exact (appends_throw error).bind h
  · simp only [hc, if_false]
    exact h

@[simp] theorem writes_check_iff :
    Writes (do
      if c then
        throw error
      b) bytes ↔ ¬ c ∧ b.Writes bytes := by
  by_cases hc : c
  · simp only [hc, if_true, not_true_eq_false, false_and, iff_false]
    exact not_writes_throw_bind
  · simp only [hc, if_false, not_false_eq_true, true_and]

end Check

theorem appends_emitCount (n : Nat) : (emitCount n).Appends := by
  unfold emitCount
  split
  · exact appends_emit _
  · exact appends_throw _

@[simp] theorem writes_emitCount_iff {n : Nat} :
    (emitCount n).Writes bytes ↔ n < Nat.pow 2 32 ∧ bytes = Bytes.leBytes 4 n := by
  unfold emitCount
  constructor
  · intro h
    split at h
    · next hn => exact ⟨hn, (Does.unique h (writes_emit _)).1⟩
    · exact absurd h (not_writes_throw _)
  · rintro ⟨hn, rfl⟩
    rw [if_pos hn]
    exact writes_emit _

theorem Writes.bytes_eq (h : a.Writes bytes) : a.bytes = .ok bytes := by
  unfold Encoder.bytes
  rw [h #[]]
  simp

theorem Appends.writes_of_bytes (ha : a.Appends) (h : a.bytes = .ok bytes) : a.Writes bytes := by
  obtain ⟨x, r, hx⟩ := ha
  unfold Encoder.bytes at h
  rw [hx #[]] at h
  cases r with
  | error e => cases h
  | ok _ =>
    simp only [Array.empty_append, Except.ok.injEq] at h
    exact h ▸ hx

end Encoder

open Encoder

theorem Target.appends_refuse (t : Target) (kind : String) : Appends (t.refuse kind) := by
  cases t <;> exact appends_throw _

theorem Target.not_writes_refuse (t : Target) (kind : String) {bytes : List UInt8} :
    ¬ Writes (t.refuse kind) bytes := by
  cases t <;> exact not_writes_throw _

/-- What `writeComplex` writes behind the index of the variant. -/
def writeVariantPayload (key variant : String) :
    Option (List FieldCodec) → Option FieldWriters → Encoder
  | some codecs, some writers => writeFields writers codecs
  | some [], none => return ()
  | some (first :: _), none => throw (.missingField s!"{key}::{variant}.{first.name}")
  | none, some (_ :: _) => throw (.typeMismatch s!"unit variant {key}::{variant}" "variant with fields")
  | none, _ => return ()

theorem writeComplex_eq (key : String) (variants : List VariantCodec) (variant : String)
    (payload : Option FieldWriters) :
    writeComplex key variants variant payload
      = match variants.findIdx? (·.name = variant) with
        | none => throw (.unknownVariant key variant)
        | some index => (do
          emit [UInt8.ofNat index]
          writeVariantPayload key variant (variants[index]?.bind VariantCodec.fields) payload) := by
  unfold writeComplex
  cases variants.findIdx? (·.name = variant) with
  | none => rfl
  | some index =>
    rcases variants[index]?.bind VariantCodec.fields with _ | _ | ⟨first, rest⟩ <;>
      rcases payload with _ | _ | ⟨writer, writers⟩ <;> rfl

theorem Value.write_enum (set : LayoutSet) (variant : String)
    (payload : Option (List (String × Value))) (codec : Codec) :
    (Value.enum variant payload).write set codec
      = match set.target codec with
        | .layout key (.simpleEnum names) => writeSimple key names variant (payload.getD []).length
        | .layout key (.complexEnum variants) =>
          writeComplex key variants variant (payload.map (fieldWriters set))
        | t => t.refuse "enum" := by
  cases payload <;> rw [Value.write] <;> rfl

@[simp] theorem lookup_fieldWriters (set : LayoutSet) (fields : List (String × Value)) (name : String) :
    (fieldWriters set fields).lookup name = (fields.lookup name).map (Value.write set) := by
  induction fields with
  | nil => rfl
  | cons field rest ih =>
    obtain ⟨n, v⟩ := field
    simp only [fieldWriters, List.lookup_cons, ih]
    cases name == n <;> rfl

section Appends

variable {set : LayoutSet}

theorem appends_writeItems {items : List Value} {codec : Codec}
    (h : ∀ v ∈ items, Appends (v.write set codec)) : Appends (writeItems set codec items) := by
  induction items with
  | nil => exact appends_pure
  | cons item rest ih =>
    rw [writeItems]
    exact (h item List.mem_cons_self).bind (ih fun v hv => h v (List.mem_cons_of_mem _ hv))

theorem appends_writeFields {fields : List (String × Value)}
    (h : ∀ f ∈ fields, ∀ codec, Appends (f.2.write set codec)) (codecs : List FieldCodec) :
    Appends (writeFields (fieldWriters set fields) codecs) := by
  induction codecs with
  | nil => exact appends_pure
  | cons field rest ih =>
    simp only [writeFields, lookup_fieldWriters]
    cases hv : fields.lookup field.name with
    | none => exact (appends_throw _).bind ih
    | some v => exact (h _ (Keyed.mem_of_lookup hv) field.codec).bind ih

theorem appends_writePayload {inner : Option Value} {codec : Codec} (tag : OptionTag)
    (h : ∀ v ∈ inner, Appends (v.write set codec)) :
    Appends (writePayload set tag codec inner) := by
  cases inner with
  | none => exact appends_emit _
  | some v => exact (appends_emit _).bind (h v rfl)

theorem appends_writeSimple (key : String) (names : List String) (variant : String) (n : Nat) :
    Appends (writeSimple key names variant n) := by
  unfold writeSimple
  refine Appends.check ?_
  split
  · exact appends_emit _
  · exact appends_throw _

theorem appends_writeVariantPayload (key variant : String) (codecs : Option (List FieldCodec))
    {payload : Option FieldWriters}
    (h : ∀ writers ∈ payload, ∀ codecs, Appends (writeFields writers codecs)) :
    Appends (writeVariantPayload key variant codecs payload) := by
  rcases codecs with _ | _ | ⟨first, rest⟩ <;> rcases payload with _ | _ | ⟨writer, writers⟩
  all_goals first | exact appends_pure | exact appends_throw _ | exact h _ rfl _

theorem appends_writeComplex (key : String) (variants : List VariantCodec) (variant : String)
    {payload : Option FieldWriters}
    (h : ∀ writers ∈ payload, ∀ codecs, Appends (writeFields writers codecs)) :
    Appends (writeComplex key variants variant payload) := by
  rw [writeComplex_eq]
  split
  · exact appends_throw _
  · exact (appends_emit _).bind (appends_writeVariantPayload key variant _ h)

theorem appends_write (v : Value) : ∀ codec, Appends (v.write set codec) := by
  induction v using Value.induction with
  | bool b =>
    intro codec
    rw [Value.write]
    split
    · exact appends_emit _
    · exact Target.appends_refuse _ _
  | scalar s bits =>
    intro codec
    rw [Value.write]
    split
    · split
      · exact appends_emit _
      · exact appends_throw _
    · exact Target.appends_refuse _ _
  | bytes data =>
    intro codec
    rw [Value.write]
    split
    · exact (appends_emitCount _).bind (appends_emit _)
    · exact Target.appends_refuse _ _
  | string text =>
    intro codec
    rw [Value.write]
    split
    · exact (appends_emitCount _).bind (appends_emit _)
    · exact Target.appends_refuse _ _
  | option tag inner ih =>
    intro codec
    rw [Value.write]
    split
    · split
      · exact appends_writePayload tag fun v hv => ih v hv _
      · exact appends_throw _
    · exact Target.appends_refuse _ _
  | vec items ih =>
    intro codec
    rw [Value.write]
    split
    · next inner _ =>
      have hitems := (appends_emitCount items.length).bind
        (appends_writeItems fun v hv => ih v hv inner)
      split
      · exact (appends_throw _).bind hitems
      · exact hitems
    · exact Target.appends_refuse _ _
  | array items ih =>
    intro codec
    rw [Value.write]
    split
    · next inner length _ =>
      have hitems := appends_writeItems fun v hv => ih v hv inner
      refine Appends.check ?_
      split
      · exact (appends_throw _).bind hitems
      · exact hitems
    · exact Target.appends_refuse _ _
  | struct fields ih =>
    intro codec
    rw [Value.write]
    split
    · exact appends_writeFields ih _
    · exact Target.appends_refuse _ _
  | enum variant payload ih =>
    intro codec
    rw [Value.write_enum]
    split
    · exact appends_writeSimple _ _ _ _
    · refine appends_writeComplex _ _ _ fun writers h codecs => ?_
      obtain ⟨fields, hfields, rfl⟩ := Option.map_eq_some_iff.mp h
      exact appends_writeFields (ih fields hfields) codecs
    · exact Target.appends_refuse _ _

end Appends

section Inversion

variable {set : LayoutSet} {bytes : List UInt8}

theorem writes_writeItems_cons {item : Value} {rest : List Value} {codec : Codec}
    (h : Writes (writeItems set codec (item :: rest)) bytes) :
    ∃ x y, Writes (item.write set codec) x ∧ Writes (writeItems set codec rest) y
      ∧ bytes = x ++ y := by
  rw [writeItems] at h
  exact (appends_write item codec).writes_bind (appends_writeItems fun v _ => appends_write v codec) h

theorem writes_writeFields_cons {fields : List (String × Value)} {field : FieldCodec}
    {rest : List FieldCodec} (h : Writes (writeFields (fieldWriters set fields) (field :: rest)) bytes) :
    ∃ v x y, fields.lookup field.name = some v ∧ Writes (v.write set field.codec) x
      ∧ Writes (writeFields (fieldWriters set fields) rest) y ∧ bytes = x ++ y := by
  have hrest : Appends (writeFields (fieldWriters set fields) rest) :=
    appends_writeFields (fun f _ => appends_write f.2) rest
  simp only [writeFields, lookup_fieldWriters] at h
  cases hv : fields.lookup field.name with
  | none =>
    simp only [hv, Option.map_none] at h
    obtain ⟨x, y, hx, -, -⟩ := (appends_throw _).writes_bind hrest h
    exact absurd hx (not_writes_throw _)
  | some v =>
    simp only [hv, Option.map_some] at h
    obtain ⟨x, y, hx, hy, rfl⟩ := (appends_write v field.codec).writes_bind hrest h
    exact ⟨v, x, y, rfl, hx, hy, rfl⟩

theorem writes_writeSimple_iff {key variant : String} {names : List String} {n : Nat} :
    Writes (writeSimple key names variant n) bytes
      ↔ n = 0 ∧ ∃ index, names.findIdx? (· = variant) = some index ∧ bytes = [UInt8.ofNat index] := by
  unfold writeSimple
  refine writes_check_iff.trans (and_congr (Nat.not_lt.trans Nat.le_zero) ?_)
  cases hindex : names.findIdx? (· = variant) with
  | none =>
    constructor
    · exact fun h => absurd h (not_writes_throw _)
    · rintro ⟨_, h, -⟩
      cases h
  | some index =>
    constructor
    · exact fun h => ⟨index, rfl, (Does.unique h (writes_emit _)).1⟩
    · rintro ⟨_, h, rfl⟩
      cases h
      exact writes_emit _

theorem writes_writeVariantPayload (key variant : String) (codecs : Option (List FieldCodec))
    (payload : Option FieldWriters) :
    Writes (writeVariantPayload key variant codecs payload) bytes →
      match codecs with
      | some codecs => Writes (writeFields (payload.getD []) codecs) bytes
      | none => bytes = [] := by
  intro h
  rcases codecs with _ | _ | ⟨first, rest⟩ <;> rcases payload with _ | _ | ⟨writer, writers⟩
  all_goals first
    | exact h
    | exact absurd h (not_writes_throw _)
    | exact (Does.unique h writes_pure).1

theorem writes_writeComplex {key variant : String} {variants : List VariantCodec} {index : Nat}
    {v : VariantCodec} {payload : Option FieldWriters} {tail : List UInt8}
    (hindex : variants.findIdx? (·.name = variant) = some index) (hv : variants[index]? = some v)
    (h : Writes (writeVariantPayload key variant v.fields payload) tail) :
    Writes (writeComplex key variants variant payload) ([UInt8.ofNat index] ++ tail) := by
  simp only [writeComplex_eq, hindex, hv, Option.bind_some]
  exact (writes_emit _).bind h

/-- A written variant is the first of its name; behind its index stands the payload, if its layout has
one. -/
theorem writes_writeComplex_inv {key variant : String} {variants : List VariantCodec}
    {payload : Option FieldWriters}
    (hp : ∀ writers ∈ payload, ∀ codecs, Appends (writeFields writers codecs))
    (h : Writes (writeComplex key variants variant payload) bytes) :
    ∃ index v tail, variants.findIdx? (·.name = variant) = some index ∧ variants[index]? = some v
      ∧ bytes = UInt8.ofNat index :: tail
      ∧ match v.fields with
        | some codecs => Writes (writeFields (payload.getD []) codecs) tail
        | none => tail = [] := by
  rw [writeComplex_eq] at h
  cases hindex : variants.findIdx? (·.name = variant) with
  | none =>
    simp only [hindex] at h
    exact absurd h (not_writes_throw _)
  | some index =>
    obtain ⟨hlt, -⟩ := List.findIdx?_eq_some_iff_getElem.mp hindex
    have hv : variants[index]? = some variants[index] := List.getElem?_eq_getElem hlt
    simp only [hindex, hv, Option.bind_some] at h
    obtain ⟨x, tail, hx, htail, rfl⟩ := (appends_emit _).writes_bind
      (appends_writeVariantPayload key variant variants[index].fields hp) h
    obtain rfl := (Does.unique hx (writes_emit _)).1
    exact ⟨index, variants[index], tail, rfl, hv, rfl, writes_writeVariantPayload _ _ _ _ htail⟩

end Inversion

end WireSchema
