import WireSchema.Program.Dispatch
import WireSchema.Proofs.Codec.Output
import WireSchema.Proofs.Schema.Validation

/-!
# Fields in another order

Fields are looked up by name, so their order does not matter, nor does it what
stands under names that the layout does not have. That is so for the fields of
structs and of payloads at every depth: values that differ in nothing else are
written as the same bytes, or none of them is written. Which error there is may
depend on whether a payload is empty or left out, and is not spoken of.
-/

namespace WireSchema

set_option autoImplicit false

open Schema Encoder

namespace LayoutSet

/-- The fields of the struct that a codec stands for, if it does for one. -/
def structCodecs? (set : LayoutSet) (codec : Codec) : Option (List FieldCodec) :=
  match set.target codec with
  | .layout _ (.struct codecs) => some codecs
  | _ => none

/-- The fields of a variant of the enumeration that a codec stands for, if its layout has any. -/
def payloadCodecs? (set : LayoutSet) (codec : Codec) (variant : String) : Option (List FieldCodec) :=
  match set.target codec with
  | .layout _ (.complexEnum variants) => (variants.find? (·.name = variant)).bind VariantCodec.fields
  | _ => none

mutual

/-- Under a codec the values differ only in the order of fields with different names and in fields that the
layout does not name, at any depth. A payload that is left out has no fields. Where a value is not what the
codec stands for, what is inside of it has no codec and may differ. -/
inductive Rearranged (set : LayoutSet) : Codec → Value → Value → Prop
  | refl (codec : Codec) (v : Value) : Rearranged set codec v v
  | option {codec : Codec} {tag : OptionTag} {v w : Value} :
      (∀ tag' inner, set.target codec = .plain (.option tag' inner) → Rearranged set inner v w) →
      Rearranged set codec (.option tag (some v)) (.option tag (some w))
  | vec {codec : Codec} {items others : List Value} : items.length = others.length →
      (∀ inner, set.target codec = .plain (.vec inner) → ∀ (i : Nat) (v w : Value),
        items[i]? = some v → others[i]? = some w → Rearranged set inner v w) →
      Rearranged set codec (.vec items) (.vec others)
  | array {codec : Codec} {items others : List Value} : items.length = others.length →
      (∀ inner length, set.target codec = .plain (.array inner length) → ∀ (i : Nat) (v w : Value),
        items[i]? = some v → others[i]? = some w → Rearranged set inner v w) →
      Rearranged set codec (.array items) (.array others)
  | struct {codec : Codec} {fields others : List (String × Value)} :
      (∀ codecs, set.structCodecs? codec = some codecs → FieldsRearranged set codecs fields others) →
      Rearranged set codec (.struct fields) (.struct others)
  | payload {codec : Codec} {variant : String} {fields others : Option (List (String × Value))} :
      (∀ codecs, set.payloadCodecs? codec variant = some codecs →
        FieldsRearranged set codecs (fields.getD []) (others.getD [])) →
      (set.payloadCodecs? codec variant = none → (fields.getD []).isEmpty = (others.getD []).isEmpty) →
      Rearranged set codec (.enum variant fields) (.enum variant others)

/-- The same of fields beside each other, which are written under these codecs. -/
inductive FieldsRearranged (set : LayoutSet) : List FieldCodec → List (String × Value) →
    List (String × Value) → Prop
  | refl (codecs : List FieldCodec) (fields : List (String × Value)) : FieldsRearranged set codecs fields fields
  | symm {codecs : List FieldCodec} {fields others : List (String × Value)} :
      FieldsRearranged set codecs fields others → FieldsRearranged set codecs others fields
  | trans {codecs : List FieldCodec} {fields others more : List (String × Value)} :
      FieldsRearranged set codecs fields others → FieldsRearranged set codecs others more →
      FieldsRearranged set codecs fields more
  | swapped {codecs : List FieldCodec} {a b : String × Value} (front back : List (String × Value)) :
      a.1 ≠ b.1 → FieldsRearranged set codecs (front ++ a :: b :: back) (front ++ b :: a :: back)
  | extra {codecs : List FieldCodec} {name : String} {v : Value} (front back : List (String × Value)) :
      (∀ f ∈ codecs, f.name ≠ name) →
      FieldsRearranged set codecs (front ++ back) (front ++ (name, v) :: back)
  | inside {codecs : List FieldCodec} {name : String} {v w : Value} (front back : List (String × Value)) :
      (∀ f ∈ codecs, f.name = name → Rearranged set f.codec v w) →
      FieldsRearranged set codecs (front ++ (name, v) :: back) (front ++ (name, w) :: back)

end

variable {set : LayoutSet} {codec : Codec} {codecs : List FieldCodec}

theorem Rearranged.struct_of {fields others : List (String × Value)} (hcodecs : set.structCodecs? codec = some codecs)
    (h : set.FieldsRearranged codecs fields others) : set.Rearranged codec (.struct fields) (.struct others) :=
  .struct fun other hother => by
    rw [hcodecs] at hother
    cases hother
    exact h

theorem Rearranged.payload_of {variant : String} {fields others : Option (List (String × Value))}
    (hcodecs : set.payloadCodecs? codec variant = some codecs)
    (h : set.FieldsRearranged codecs (fields.getD []) (others.getD [])) :
    set.Rearranged codec (.enum variant fields) (.enum variant others) := by
  refine .payload (fun other hother => ?_) fun hnone => ?_
  · rw [hcodecs] at hother
    cases hother
    exact h
  · rw [hcodecs] at hnone
    cases hnone

/-- Fields with pairwise different names may stand in any order. -/
theorem fieldsRearranged_of_perm {fields others : List (String × Value)} (hperm : fields.Perm others)
    (hnames : (fields.map Prod.fst).Nodup) : set.FieldsRearranged codecs fields others := by
  -- the induction is on the permutation, behind fields that stay in place
  have hbehind : ∀ front, set.FieldsRearranged codecs (front ++ fields) (front ++ others) := by
    induction hperm with
    | nil => exact fun front => .refl codecs _
    | cons field _ ih =>
      intro front
      have hrest := ih (List.nodup_cons.mp hnames).2 (front ++ [field])
      rwa [List.append_assoc, List.append_assoc] at hrest
    | swap a b rest =>
      intro front
      refine .swapped front rest fun heq => (List.nodup_cons.mp hnames).1 ?_
      rw [heq]
      exact List.mem_cons_self
    | trans hfirst _ ih ih' =>
      intro front
      exact (ih hnames front).trans (ih' ((hfirst.map Prod.fst).nodup_iff.mp hnames) front)
  exact hbehind []

end LayoutSet

namespace Encoder

variable {a b c d : Encoder}

/-- Both append what they write, and they write the same bytes or both fail. -/
structure Agrees (a b : Encoder) : Prop where
  left : a.Appends
  right : b.Appends
  same : ∀ bytes, a.Writes bytes ↔ b.Writes bytes

theorem Agrees.refl (h : a.Appends) : a.Agrees a := ⟨h, h, fun _ => Iff.rfl⟩

theorem Agrees.symm (h : a.Agrees b) : b.Agrees a := ⟨h.right, h.left, fun bytes => (h.same bytes).symm⟩

theorem Agrees.trans (hab : a.Agrees b) (hbc : b.Agrees c) : a.Agrees c :=
  ⟨hab.left, hbc.right, fun bytes => (hab.same bytes).trans (hbc.same bytes)⟩

theorem Agrees.bind (hab : a.Agrees b) (hcd : c.Agrees d) : Agrees (do a; c) (do b; d) where
  left := hab.left.bind hcd.left
  right := hab.right.bind hcd.right
  same bytes := by
    constructor
    · intro h
      obtain ⟨x, y, hx, hy, rfl⟩ := hab.left.writes_bind hcd.left h
      exact Writes.bind ((hab.same x).mp hx) ((hcd.same y).mp hy)
    · intro h
      obtain ⟨x, y, hx, hy, rfl⟩ := hab.right.writes_bind hcd.right h
      exact Writes.bind ((hab.same x).mpr hx) ((hcd.same y).mpr hy)

/-- Behind a common beginning. -/
theorem Agrees.behind (ha : a.Appends) (hcd : c.Agrees d) : Agrees (do a; c) (do a; d) :=
  (Agrees.refl ha).bind hcd

theorem Agrees.check {p : Prop} [Decidable p] {error : CodecError} (hcd : c.Agrees d) :
    Agrees (do
      if p then
        throw error
      c) (do
      if p then
        throw error
      d) := by
  by_cases hp : p
  · simp only [hp, if_true]
    exact hcd.behind (appends_throw error)
  · simp only [hp, if_false]
    exact hcd

theorem Agrees.unlessRefused {refusal : Option CodecError} (hcd : c.Agrees d) :
    Agrees (do
      if let some error := refusal then throw error
      c) (do
      if let some error := refusal then throw error
      d) := by
  cases refusal with
  | none => exact hcd
  | some error => exact hcd.behind (appends_throw error)

theorem Agrees.bytes_iff (h : a.Agrees b) (bytes : List UInt8) : a.bytes = .ok bytes ↔ b.bytes = .ok bytes := by
  have hwrites : ∀ {e : Encoder}, e.Appends → (e.bytes = .ok bytes ↔ e.Writes bytes) := fun he =>
    ⟨he.writes_of_bytes, Writes.bytes_eq⟩
  rw [hwrites h.left, hwrites h.right]
  exact h.same bytes

end Encoder

section Agree

variable {set : LayoutSet} {codecs : List FieldCodec} {fields others : List (String × Value)}

theorem agrees_writeItems {inner : Codec} {items others : List Value} (hlength : items.length = others.length)
    (h : ∀ (i : Nat) (v w : Value), items[i]? = some v → others[i]? = some w →
      Agrees (v.write set inner) (w.write set inner)) :
    Agrees (writeItems set inner items) (writeItems set inner others) := by
  induction items generalizing others with
  | nil =>
    obtain rfl := List.length_eq_zero_iff.mp hlength.symm
    exact Agrees.refl appends_pure
  | cons v rest ih =>
    obtain ⟨w, others, rfl⟩ := List.exists_cons_of_length_eq_add_one hlength.symm
    exact (h 0 v w rfl rfl).bind (ih (Nat.succ.inj hlength) fun i => h (i + 1))

/-- Write the field that a codec names. -/
def writeNamed (set : LayoutSet) (fields : List (String × Value)) (f : FieldCodec) : Encoder :=
  match fields.lookup f.name with
  | some v => v.write set f.codec
  | none => throw (.missingField f.name)

theorem writeFields_cons (fields : List (String × Value)) (f : FieldCodec) (rest : List FieldCodec) :
    writeFields (fieldWriters set fields) (f :: rest)
      = (do writeNamed set fields f; writeFields (fieldWriters set fields) rest) := by
  simp only [writeFields, lookup_fieldWriters, writeNamed]
  cases fields.lookup f.name <;> rfl

theorem agrees_writeNamed {f : FieldCodec} (h : fields.lookup f.name = others.lookup f.name) :
    Agrees (writeNamed set fields f) (writeNamed set others f) := by
  rw [writeNamed, writeNamed, h]
  cases others.lookup f.name with
  | some v => exact Agrees.refl (appends_write v f.codec)
  | none => exact Agrees.refl (appends_throw _)

/-- The fields that the codecs name are written alike. -/
def FieldsAgree (set : LayoutSet) (codecs : List FieldCodec) (fields others : List (String × Value)) : Prop :=
  ∀ f ∈ codecs, Agrees (writeNamed set fields f) (writeNamed set others f)

theorem FieldsAgree.writeFields (h : FieldsAgree set codecs fields others) :
    Agrees (writeFields (fieldWriters set fields) codecs) (writeFields (fieldWriters set others) codecs) := by
  induction codecs with
  | nil => exact Agrees.refl appends_pure
  | cons f rest ih =>
    rw [writeFields_cons, writeFields_cons]
    exact (h f List.mem_cons_self).bind (ih fun f hf => h f (List.mem_cons_of_mem _ hf))

/-- A payload is written like its fields; without one, the first field that is asked for is missing. -/
theorem agrees_writeVariantPayload (key variant : String) (codecs : List FieldCodec)
    (payload : Option (List (String × Value))) :
    Agrees (writeVariantPayload key variant (some codecs) (payload.map (fieldWriters set)))
      (writeFields (fieldWriters set (payload.getD [])) codecs) := by
  have happends : ∀ fields, Appends (writeFields (fieldWriters set fields) codecs) := fun fields =>
    appends_writeFields (fun f _ => appends_write f.2) codecs
  cases payload with
  | some fields => exact Agrees.refl (happends fields)
  | none =>
    cases codecs with
    | nil => exact Agrees.refl appends_pure
    | cons f rest =>
      exact ⟨appends_throw _, happends [], fun _ => iff_of_false (not_writes_throw _) not_writes_throw_bind⟩

theorem writeVariantPayload_none (key variant : String) (payload : Option (List (String × Value))) :
    writeVariantPayload key variant none (payload.map (fieldWriters set))
      = if (payload.getD []).isEmpty then pure ()
        else throw (.typeMismatch s!"unit variant {key}::{variant}" "variant with fields") := by
  rcases payload with _ | _ | ⟨⟨name, v⟩, rest⟩ <;> rfl

section Payload

variable {payload others : Option (List (String × Value))}

theorem agrees_writeSimple (key variant : String) (names : List String)
    (h : (payload.getD []).isEmpty = (others.getD []).isEmpty) :
    Agrees (writeSimple key names variant (payload.getD []).length)
      (writeSimple key names variant (others.getD []).length) where
  left := appends_writeSimple key names variant _
  right := appends_writeSimple key names variant _
  same bytes := by
    rw [writes_writeSimple_iff, writes_writeSimple_iff, ← List.isEmpty_iff_length_eq_zero,
      ← List.isEmpty_iff_length_eq_zero, h]

/-- The first variant of a name counts. -/
theorem agrees_writeComplex (key variant : String) {variants : List VariantCodec}
    (hfields : ∀ codecs, (variants.find? (·.name = variant)).bind VariantCodec.fields = some codecs →
      FieldsAgree set codecs (payload.getD []) (others.getD []))
    (hempty : (variants.find? (·.name = variant)).bind VariantCodec.fields = none →
      (payload.getD []).isEmpty = (others.getD []).isEmpty) :
    Agrees (writeComplex key variants variant (payload.map (fieldWriters set)))
      (writeComplex key variants variant (others.map (fieldWriters set))) := by
  rw [List.find?_eq_bind_findIdx?_getElem?] at hfields hempty
  rw [writeComplex_eq, writeComplex_eq]
  cases hindex : variants.findIdx? (·.name = variant) with
  | none => exact Agrees.refl (appends_throw _)
  | some index =>
    rw [hindex, Option.bind_some] at hfields hempty
    refine Agrees.behind (appends_emit _) ?_
    cases hcodecs : variants[index]?.bind VariantCodec.fields with
    | none =>
      rw [writeVariantPayload_none, writeVariantPayload_none, hempty hcodecs]
      split
      · exact Agrees.refl appends_pure
      · exact Agrees.refl (appends_throw _)
    | some codecs =>
      exact ((agrees_writeVariantPayload key variant codecs payload).trans (hfields codecs hcodecs).writeFields).trans
        (agrees_writeVariantPayload key variant codecs others).symm

end Payload

end Agree

section Lookup

variable {α : Type} {name : String}

theorem lookup_passed {other : String} (h : name ≠ other) (x : α) (rest : List (String × α)) :
    ((other, x) :: rest).lookup name = rest.lookup name := by
  rw [List.lookup_cons, beq_false_of_ne h]

theorem lookup_swapped {a b : String × α} (front back : List (String × α)) (hne : a.1 ≠ b.1) :
    (front ++ a :: b :: back).lookup name = (front ++ b :: a :: back).lookup name := by
  obtain ⟨m, x⟩ := a
  obtain ⟨n, y⟩ := b
  rw [List.lookup_append, List.lookup_append]
  by_cases hm : name = m
  · subst hm
    rw [lookup_passed hne, List.lookup_cons_self, List.lookup_cons_self]
  · rw [lookup_passed hm]
    by_cases hn : name = n
    · subst hn
      rw [List.lookup_cons_self, List.lookup_cons_self]
    · rw [lookup_passed hn, lookup_passed hn, lookup_passed hm]

theorem lookup_extra {other : String} {x : α} (front back : List (String × α)) (hne : name ≠ other) :
    (front ++ back).lookup name = (front ++ (other, x) :: back).lookup name := by
  rw [List.lookup_append, List.lookup_append, lookup_passed hne]

end Lookup

section Main

variable {set : LayoutSet}

mutual

/-- The induction is on what the values differ in. A value that is not what its codec stands for is refused. -/
theorem LayoutSet.Rearranged.agrees {codec : Codec} {v w : Value} (h : set.Rearranged codec v w) :
    Agrees (v.write set codec) (w.write set codec) :=
  match h with
  | .refl codec v => Agrees.refl (appends_write v codec)
  | .option hinner => by
    rw [Value.write, Value.write]
    split
    · next htarget =>
      split
      · exact ((hinner _ _ htarget).agrees).behind (appends_emit _)
      · exact Agrees.refl (appends_throw _)
    · exact Agrees.refl (Target.appends_refuse _ _)
  | .vec hlength hitems => by
    rw [Value.write, Value.write, hlength]
    split
    · next htarget =>
      have hagree := agrees_writeItems hlength fun i v w hv hw => (hitems _ htarget i v w hv hw).agrees
      exact (hagree.behind (appends_emitCount _)).unlessRefused
    · exact Agrees.refl (Target.appends_refuse _ _)
  | .array hlength hitems => by
    rw [Value.write, Value.write, hlength]
    split
    · next htarget =>
      have hagree := agrees_writeItems hlength fun i v w hv hw => (hitems _ _ htarget i v w hv hw).agrees
      exact hagree.unlessRefused.check
    · exact Agrees.refl (Target.appends_refuse _ _)
  | .struct hfields => by
    rw [Value.write, Value.write]
    split
    · next htarget => exact (hfields _ (by rw [LayoutSet.structCodecs?, htarget])).agree.writeFields
    · exact Agrees.refl (Target.appends_refuse _ _)
  | .payload hfields hempty => by
    rw [Value.write_enum, Value.write_enum]
    split
    · next htarget => exact agrees_writeSimple _ _ _ (hempty (by rw [LayoutSet.payloadCodecs?, htarget]))
    · next htarget =>
      rw [LayoutSet.payloadCodecs?, htarget] at hempty
      exact agrees_writeComplex _ _ (fun codecs hcodecs =>
        (hfields codecs (by rw [LayoutSet.payloadCodecs?, htarget]; exact hcodecs)).agree) hempty
    · exact Agrees.refl (Target.appends_refuse _ _)
termination_by structural h

theorem LayoutSet.FieldsRearranged.agree {codecs : List FieldCodec} {fields others : List (String × Value)}
    (h : set.FieldsRearranged codecs fields others) : FieldsAgree set codecs fields others :=
  match h with
  | .refl codecs fields => fun _ _ => agrees_writeNamed rfl
  | .symm hfields => fun f hf => (hfields.agree f hf).symm
  | .trans hfirst hrest => fun f hf => (hfirst.agree f hf).trans (hrest.agree f hf)
  | .swapped front back hne => fun _ _ => agrees_writeNamed (lookup_swapped front back hne)
  | .extra front back hnew => fun f hf => agrees_writeNamed (lookup_extra front back (hnew f hf))
  | @LayoutSet.FieldsRearranged.inside _ codecs name v w front back hinside => fun f hf => by
    by_cases hname : f.name = name
    · cases hfront : front.lookup name with
      | some first =>
        -- what stands behind a field of the same name is not looked at
        refine agrees_writeNamed ?_
        rw [List.lookup_append, List.lookup_append, hname, hfront]
        rfl
      | none =>
        have hinner := (hinside f hf hname).agrees
        unfold writeNamed
        rw [List.lookup_append, List.lookup_append, hname, hfront, List.lookup_cons_self, List.lookup_cons_self]
        exact hinner
    · exact agrees_writeNamed ((lookup_extra front back hname).symm.trans (lookup_extra front back hname))
termination_by structural h

end

/-- Values that are rearranged under a codec are written as the same bytes, or none of them is written, and
so are the arguments of an instruction. -/
theorem encode_rearranged :
    (∀ {set : LayoutSet} {codec : Codec} {v w : Value}, set.Rearranged codec v w →
      ∀ bytes, set.encode codec v = .ok bytes ↔ set.encode codec w = .ok bytes)
    ∧ ∀ {p : Program} {name : String} {entry : InstructionEntry} {args others : List (String × Value)},
      p.instruction name = .ok entry → p.layouts.FieldsRearranged entry.args args others →
        ∀ bytes, p.encodeInstruction name args = .ok bytes ↔ p.encodeInstruction name others = .ok bytes := by
  constructor
  · exact fun h => h.agrees.bytes_iff
  · intro p name entry args others hentry h
    unfold Program.encodeInstruction
    rw [hentry]
    exact (h.agree.writeFields.behind (appends_emit entry.discriminator.toList)).bytes_iff

/-- A struct in a payload behind an alias, in a list; and a payload that is left out or has only a field that
its layout does not name. -/
theorem encode_rearranged_shapes :
    let byte : Ty := .prim (.scalar .u8)
    let doc : Document := { Document.ofTypes [.record "Point" [] [("x", byte), ("y", byte)],
        ⟨"Shape", [], .borsh, none, [], .enum [⟨"Dot", some (.named [⟨"at", [], .defined "Point" []⟩])⟩,
          ⟨"Blank", some (.named [])⟩]⟩,
        ⟨"Link", [], .borsh, none, [], .aliasOf (.defined "Shape" [])⟩] with
      instructions := [⟨"draw", [], [1, 0, 0, 0, 0, 0, 0, 0], [],
        [⟨"shapes", [], .vec (some (.defined "Link" []))⟩, ⟨"tag", [], byte⟩], none⟩] }
    let point : Value := .struct [("x", .ofNat .u8 3), ("y", .ofNat .u8 4)]
    let turned : Value := .struct [("y", .ofNat .u8 4), ("x", .ofNat .u8 3)]
    let shapes : Value := .vec [.enum "Dot" (some [("at", point)]), .enum "Blank" none]
    let others : Value := .vec [.enum "Dot" (some [("note", .string "n"), ("at", turned)]),
      .enum "Blank" (some [("note", .bool true)])]
    ∃ p, Program.ofDocument doc = .ok p ∧ p.layouts.Rearranged (.vec (.defined "Link")) shapes others
      ∧ p.layouts.encode (.vec (.defined "Link")) others = .ok [2, 0, 0, 0, 0, 3, 4, 1]
      ∧ p.encodeInstruction "draw" [("tag", .ofNat .u8 9), ("shapes", others)]
        = .ok [1, 0, 0, 0, 0, 0, 0, 0, 2, 0, 0, 0, 0, 3, 4, 1, 9] := by
  intro byte doc point turned shapes others
  let set : LayoutSet := ⟨[("Link", .aliasOf (.defined "Shape")),
    ("Point", .struct [⟨"x", .prim (.scalar .u8)⟩, ⟨"y", .prim (.scalar .u8)⟩]),
    ("Shape", .complexEnum [⟨"Dot", some [⟨"at", .defined "Point"⟩]⟩, ⟨"Blank", some []⟩])]⟩
  let draw : InstructionEntry := ⟨"draw", #v[1, 0, 0, 0, 0, 0, 0, 0],
    [⟨"shapes", .vec (.defined "Link")⟩, ⟨"tag", .prim (.scalar .u8)⟩], none⟩
  have hturned : set.Rearranged (.defined "Point") point turned :=
    .struct_of rfl (LayoutSet.fieldsRearranged_of_perm (List.Perm.swap _ _ _) (by decide))
  have hdot : set.FieldsRearranged [⟨"at", .defined "Point"⟩] [("at", point)]
      [("note", .string "n"), ("at", turned)] :=
    (LayoutSet.FieldsRearranged.inside [] [] fun f hf _ => List.mem_singleton.mp hf ▸ hturned).trans
      (.extra [] _ (by decide))
  have hshapes : set.Rearranged (.vec (.defined "Link")) shapes others := by
    refine .vec rfl fun inner hinner i v w hv hw => ?_
    cases hinner
    match i with
    | 0 =>
      cases hv
      cases hw
      exact .payload_of rfl hdot
    | 1 =>
      cases hv
      cases hw
      exact .payload_of rfl (.extra [] [] fun _ hf => absurd hf List.not_mem_nil)
    | i + 2 => cases hv
  have hargs : set.FieldsRearranged draw.args [("shapes", shapes), ("tag", .ofNat .u8 9)]
      [("tag", .ofNat .u8 9), ("shapes", others)] := by
    refine (LayoutSet.FieldsRearranged.swapped [] [] (by decide)).trans
      (.inside [("tag", .ofNat .u8 9)] [] fun f hf hname => ?_)
    rcases List.mem_cons.mp hf with rfl | hf
    · exact hshapes
    · rw [List.mem_singleton.mp hf] at hname
      exact absurd hname (by decide)
  have hparts : (Program.ofDocument doc).toOption.map (fun p => (p.layouts, p.instructions))
      = some (set, [draw]) := by decide +kernel
  cases hp : Program.ofDocument doc with
  | error e =>
    rw [hp] at hparts
    cases hparts
  | ok p =>
    rw [hp] at hparts
    obtain ⟨hlayouts, hinstructions⟩ := Prod.ext_iff.mp (Option.some.inj hparts)
    dsimp only at hlayouts hinstructions
    have hdraw : p.instruction "draw" = .ok draw := by
      rw [Program.instruction, hinstructions]
      rfl
    have hvalue : p.layouts.encode (.vec (.defined "Link")) shapes = .ok [2, 0, 0, 0, 0, 3, 4, 1] := by
      rw [hlayouts]
      decide +kernel
    have hwritten : p.encodeInstruction "draw" [("shapes", shapes), ("tag", .ofNat .u8 9)]
        = .ok [1, 0, 0, 0, 0, 0, 0, 0, 2, 0, 0, 0, 0, 3, 4, 1, 9] := by
      rw [Program.encodeInstruction, hdraw, hlayouts]
      decide +kernel
    rw [← hlayouts] at hshapes hargs
    exact ⟨p, rfl, hshapes, (encode_rearranged.1 hshapes _).mp hvalue,
      (encode_rearranged.2 hdraw hargs _).mp hwritten⟩

end Main

end WireSchema
