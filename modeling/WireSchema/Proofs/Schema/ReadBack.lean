import WireSchema.Proofs.Schema.Trial
import WireSchema.Proofs.Schema.Written

/-!
# Reading back what was written

Each shape refuses what the others are written as, so a reader that tries them
in turn comes to the one that was written, at every depth. A definition is read
back as it was, whether it was written in full or not.
-/

namespace WireSchema.Schema

set_option autoImplicit false

open Json (ofMembers written orNull get?_ofMembers)

theorem get?_single (key other : String) (value : Json) :
    (ofMembers [(key, some value)]).get? other = if other = key then some value else none := by
  rw [get?_ofMembers (by simp)]
  by_cases h : other = key
  · rw [h, List.lookup_cons_self, if_pos rfl]
    rfl
  · rw [List.lookup_cons, beq_eq_false_iff_ne.mpr h, if_neg h]
    rfl

@[simp] theorem ArrayLength.read_json (length : ArrayLength) : ArrayLength.read length.json = .ok length := by
  apply firstMatch_of_first
  cases length with
  | value n => exact first_here (by simp [ArrayLength.json, Json.natural?])
  | generic name =>
    have hname : (ArrayLength.json (.generic name)).get? "generic" = some (.str name) := get?_single _ _ _
    refine first_later (fun _ h => nomatch h) (first_here ?_)
    rw [requireText_eq_ok.mpr hname]
    rfl

@[simp] theorem read_prim (p : Primitive) : Ty.read (.str p.keyword) = .ok (.prim p) := by
  rw [Ty.read]
  apply firstMatch_of_first
  cases p with
  | scalar s => cases s <;> rfl
  | _ => rfl

/-- A shape that needs another key than the one which is written. -/
theorem refuses_single {α : Type} {key other : String} {value : Json} (hne : other ≠ key)
    (next : Part (ofMembers [(key, some value)]) → Except ShapeError α) :
    Refuses (requireKey (ofMembers [(key, some value)]) other >>= next) := by
  refine (refuses_key ?_).bind next
  rw [get?_single, if_neg hne]

theorem first_other {α : Type} {name key other : String} {value : Json} {a : α} {rest : Trials α}
    {next : Part (ofMembers [(key, some value)]) → Except ShapeError α} (hne : other ≠ key)
    (hrest : rest.first = .ok a) :
    Trials.first ((name, requireKey (ofMembers [(key, some value)]) other >>= next) :: rest) = .ok a :=
  first_later (refuses_single hne next) hrest

theorem accepts_single {α : Type} {key : String} {value : Json} {a : α}
    {next : Part (ofMembers [(key, some value)]) → Except ShapeError α}
    (h : ∀ part : Part (ofMembers [(key, some value)]), part.val = value → next part = .ok a) :
    requireKey (ofMembers [(key, some value)]) key >>= next = .ok a := by
  have hvalue : (ofMembers [(key, some value)]).get? key = some value := (get?_single key key value).trans (if_pos rfl)
  exact (requireKey_bind hvalue).trans (h _ rfl)

theorem read_ofMembers (members : List Json.Member) :
    Ty.read (ofMembers members) = firstMatch "IdlType" (ofMembers members) (Ty.trials (ofMembers members)) := by
  rw [ofMembers, Json.ofEntries, Ty.read]
  intro text htext
  cases htext

theorem read_wrapper {key : String} {value : Json} {ty : Ty}
    (h : (Ty.trials (ofMembers [(key, some value)])).first = .ok ty) : Ty.read (ofMembers [(key, some value)]) = .ok ty := by
  rw [read_ofMembers]
  exact firstMatch_of_first h

section Reading

variable (full : Bool)

theorem Ty.json_ne_null (ty : Ty) : ty.json full ≠ .null := by
  cases ty <;> exact fun h => nomatch h

theorem readSlot_json {inner : Option Ty} (h : ∀ ty ∈ inner, Ty.read (ty.json full) = .ok ty) :
    Ty.readSlot (slotJson full inner) = .ok inner := by
  cases inner with
  | none => rw [slotJson, Ty.readSlot]
  | some ty =>
    rw [slotJson, Ty.readSlot, h ty rfl]
    · rfl
    · exact ty.json_ne_null full

theorem GenericArg.read_json {arg : GenericArg} (h : ∀ ty, arg = .type ty → Ty.read (ty.json full) = .ok ty) :
    GenericArg.read (arg.json full) = .ok arg := by
  rw [GenericArg.read]
  apply firstMatch_of_first
  rw [GenericArg.trials]
  cases arg with
  | type ty =>
    have hkind : ((GenericArg.type ty).json full).get? "kind" = some (.str "type") := get?_ofMembers (by simp) _
    have htype : ((GenericArg.type ty).json full).get? "type" = some (ty.json full) := get?_ofMembers (by simp) _
    refine first_here ?_
    rw [expectKind_bind hkind, requireKey_bind htype, h ty rfl]
    rfl
  | const value =>
    have hkind : ((GenericArg.const value).json full).get? "kind" = some (.str "const") := get?_ofMembers (by simp) _
    have hvalue : ((GenericArg.const value).json full).get? "value" = some (.str value) := get?_ofMembers (by simp) _
    refine first_later ((refuses_kind hkind (by decide)).bind _) (first_here ?_)
    rw [expectKind_bind hkind, requireText_eq_ok.mpr hvalue]
    rfl

@[simp] theorem Ty.read_json (ty : Ty) : Ty.read (ty.json full) = .ok ty := by
  induction ty using Ty.induction with
  | prim p => exact read_prim p
  | option tag inner ih =>
    apply read_wrapper
    rw [Ty.trials]
    cases tag with
    | byte =>
      refine first_here (accepts_single fun part hpart => ?_)
      rw [hpart, readSlot_json full ih]
      rfl
    | word =>
      apply first_other (by decide)
      refine first_here (accepts_single fun part hpart => ?_)
      rw [hpart, readSlot_json full ih]
      rfl
  | vec inner ih =>
    apply read_wrapper
    rw [Ty.trials]
    apply first_other (by decide)
    apply first_other (by decide)
    refine first_here (accepts_single fun part hpart => ?_)
    rw [hpart, readSlot_json full ih]
    rfl
  | array inner length ih =>
    apply read_wrapper
    rw [Ty.trials]
    iterate 3 apply first_other (by decide)
    refine first_here (accepts_single fun part hpart => ?_)
    obtain ⟨_, hsize⟩ := part
    subst hpart
    dsimp only
    rw [readSlot_json full ih, ArrayLength.read_json]
    rfl
  | defined name args ih =>
    apply read_wrapper
    rw [Ty.trials]
    iterate 4 apply first_other (by decide)
    refine first_here (accepts_single fun part hpart => ?_)
    have hname : part.val.get? "name" = some (.str name) := by
      rw [hpart]
      exact get?_ofMembers (by simp) _
    have hgenerics : part.val.get? "generics" = written full args.isEmpty (.arr (argsJson full args)) := by
      rw [hpart]
      exact get?_ofMembers (by simp) _
    have hargs : (argsJson full args).mapM GenericArg.read = .ok args := by
      rw [argsJson_eq]
      exact mapM_map_eq_ok fun arg harg => GenericArg.read_json full fun ty hty => ih ty (hty ▸ harg)
    rw [requireText_eq_ok.mpr hname]
    dsimp only [bind, Except.bind]
    split
    · next hnone =>
      rw [List.isEmpty_iff.mp (Json.omissible_of_written (hgenerics.symm.trans hnone))]
      rfl
    · next hnull => cases Json.eq_of_written (hgenerics.symm.trans hnull)
    · next items hitems =>
      cases Json.eq_of_written (hgenerics.symm.trans hitems)
      have hattach : (argsJson full args).attach.mapM (fun arg => GenericArg.read arg.val) = .ok args := by
        rw [List.mapM_subtype fun _ _ => rfl, List.unattach_attach, hargs]
      exact congrArg (Except.map (Ty.defined name)) hattach
    · next other hnull harr hother =>
      exact (harr _ (Json.eq_of_written (hgenerics.symm.trans hother))).elim
  | generic name =>
    apply read_wrapper
    rw [Ty.trials]
    iterate 5 apply first_other (by decide)
    refine first_here (accepts_single fun part hpart => ?_)
    rw [hpart]
    rfl

theorem readRecord_ofMembers {α : Type} {name : String} {size : Nat} {fields : RecordForm → FieldResult α}
    {members : List Json.Member} {value : α} (hnodup : (members.map Prod.fst).Nodup)
    (h : ∀ entries : List (String × Json), (∀ key, entries.lookup key = (members.lookup key).join) →
      fields ⟨name, size, .inl entries⟩ = .start value) :
    readRecord name size fields (ofMembers members) = .ok value := by
  rw [ofMembers, Json.ofEntries, readRecord, h _ fun key => get?_ofMembers hnodup key]
  rfl

@[simp] theorem read_text (text : String) : ValueReader.text (.str text) = .ok text := rfl

@[simp] theorem read_texts (texts : List String) :
    ValueReader.list ValueReader.text (.arr (texts.map .str)) = .ok texts :=
  list_map_eq_ok fun text _ => read_text text

@[simp] theorem Field.read_json (f : Field) : Field.read (f.json full) = .ok f := by
  refine readRecord_ofMembers (by simp) fun entries hentries => ?_
  have hname : entries.lookup "name" = some (.str f.name) := hentries "name"
  have hdocs : entries.lookup "docs" = written full f.docs.isEmpty (.arr (f.docs.map .str)) := hentries "docs"
  have htype : entries.lookup "type" = some (f.ty.json full) := hentries "type"
  rw [required_eq hname (read_text f.name), optional_written hdocs (read_texts f.docs) List.isEmpty_iff.mp,
    required_eq htype (ofShape_eq_ok (f.ty.read_json full))]
  rfl

theorem Ty.get?_name (ty : Ty) : (ty.json full).get? "name" = none := by
  cases ty with
  | prim p => rfl
  | option tag inner => cases tag <;> exact get?_single _ _ _
  | _ => exact get?_single _ _ _

end Reading

section FirstItem

variable {first name : Json} {rest : List Json}

/-- The first item tells whether the fields have names. -/
theorem Fields.read_named {fields : List Field} (hname : first.get? "name" = some name)
    (h : (first :: rest).mapM (asShape "IdlField" Field.read) = .ok fields) :
    Fields.read (.arr (first :: rest)) = .ok (.named fields) := by
  apply firstMatch_of_first
  refine first_here ?_
  dsimp only [expectList, bind, Except.bind]
  rw [hname]
  exact congrArg (Except.map Fields.named) h

theorem Fields.read_tuple {types : List Ty} (hname : first.get? "name" = none)
    (h : (first :: rest).mapM Ty.read = .ok types) : Fields.read (.arr (first :: rest)) = .ok (.tuple types) := by
  apply firstMatch_of_first
  refine first_later ?_ (first_here ?_)
  · intro fields
    dsimp only [expectList, bind, Except.bind]
    rw [hname]
    exact fun hfields => nomatch hfields
  · dsimp only [expectList, bind, Except.bind]
    rw [hname]
    exact congrArg (Except.map Fields.tuple) h

end FirstItem

section Reading

variable (full : Bool)

theorem Fields.read_json {fields : Fields} (h : fields ≠ .tuple []) : Fields.read (fields.json full) = .ok fields := by
  cases fields with
  | named fields =>
    cases fields with
    | nil => rfl
    | cons f rest =>
      have hname : (f.json full).get? "name" = some (.str f.name) := get?_ofMembers (by simp) _
      have hfields : ((f :: rest).map (Field.json full)).mapM (asShape "IdlField" Field.read) = .ok (f :: rest) :=
        mapM_map_eq_ok fun f _ => asShape_eq_ok (f.read_json full)
      exact read_named hname hfields
  | tuple types =>
    cases types with
    | nil => exact absurd rfl h
    | cons ty rest =>
      have htypes : ((ty :: rest).map (Ty.json full)).mapM Ty.read = .ok (ty :: rest) :=
        mapM_map_eq_ok fun ty _ => ty.read_json full
      exact read_tuple (ty.get?_name full) htypes

theorem Fields.json_ne_null (fields : Fields) : fields.json full ≠ .null := by
  cases fields <;> exact fun h => nomatch h

theorem Variant.read_json {v : Variant} (h : ∀ list ∈ v.fields, list ≠ .tuple []) :
    Variant.read (v.json full) = .ok v := by
  refine readRecord_ofMembers (by simp) fun entries hentries => ?_
  have hname : entries.lookup "name" = some (.str v.name) := hentries "name"
  have hfields : entries.lookup "fields" = written full v.fields.isNone (orNull (Fields.json full) v.fields) :=
    hentries "fields"
  have hread := nullable_orNull fun list hlist =>
    ⟨ofShape_eq_ok (Fields.read_json full (h list hlist)), list.json_ne_null full⟩
  rw [required_eq hname (read_text v.name), optional_written hfields hread Option.isNone_iff_eq_none.mp]
  rfl

@[simp] theorem Param.read_json (param : Param) : Param.read param.json = .ok param := by
  apply firstMatch_of_first
  cases param with
  | type name =>
    have hkind : (Param.type name).json.get? "kind" = some (.str "type") := get?_ofMembers (by simp) _
    have hname : (Param.type name).json.get? "name" = some (.str name) := get?_ofMembers (by simp) _
    refine first_here ?_
    rw [expectKind_bind hkind, requireText_eq_ok.mpr hname]
    rfl
  | const name ty =>
    have hkind : (Param.const name ty).json.get? "kind" = some (.str "const") := get?_ofMembers (by simp) _
    have hname : (Param.const name ty).json.get? "name" = some (.str name) := get?_ofMembers (by simp) _
    have htype : (Param.const name ty).json.get? "type" = some (.str ty) := get?_ofMembers (by simp) _
    refine first_later ((refuses_kind hkind (by decide)).bind _) (first_here ?_)
    rw [expectKind_bind hkind, requireText_eq_ok.mpr hname, requireText_eq_ok.mpr htype]
    rfl

@[simp] theorem Serialization.read_json (s : Serialization) : Serialization.read s.json = .ok s := by
  apply firstMatch_of_first
  cases s with
  | custom name =>
    have hname : (Serialization.custom name).json.get? "custom" = some (.str name) := get?_single _ _ _
    have hword : ∀ word, Refuses (expectWord (Serialization.custom name).json word) :=
      fun word => refuses_word fun h => nomatch h
    refine first_later ((hword _).map _) (first_later ((hword _).map _) (first_later ((hword _).map _)
      (first_here ?_)))
    rw [requireText_eq_ok.mpr hname]
    rfl
  | _ => rfl

theorem read_natural (name : String) {bound n : Nat} (h : n < bound) :
    ValueReader.natural name bound (.int (Int.ofNat n)) = .ok n :=
  if_pos ⟨Int.natCast_nonneg n, Int.ofNat_lt.mpr h⟩

theorem ReprModifier.read_json {modifier : ReprModifier} (kind : String) (h : ∀ n ∈ modifier.align, n < Nat.pow 2 64) :
    ReprModifier.read (modifier.json full kind) = .ok modifier := by
  refine readRecord_ofMembers (by simp) fun entries hentries => ?_
  have hpacked : entries.lookup "packed" = written full (!modifier.packed) (.bool modifier.packed) := hentries "packed"
  have halign : entries.lookup "align"
      = written full modifier.align.isNone (orNull (fun n => .int (Int.ofNat n)) modifier.align) := hentries "align"
  have hread : ValueReader.nullable (ValueReader.natural "usize" (Nat.pow 2 64))
      (orNull (fun n => .int (Int.ofNat n)) modifier.align) = .ok modifier.align :=
    nullable_orNull fun n hn => ⟨read_natural "usize" (h n hn), fun hnull => nomatch hnull⟩
  have hbool : ValueReader.bool (.bool modifier.packed) = .ok modifier.packed := rfl
  rw [optional_written hpacked hbool (by simp), optional_written halign hread Option.isNone_iff_eq_none.mp]
  rfl

theorem Representation.read_json {r : Representation} (h : ∀ n ∈ r.align?, n < Nat.pow 2 64) :
    Representation.read (r.json full) = .ok r := by
  apply firstMatch_of_first
  cases r with
  | rust modifier =>
    have hkind : (modifier.json full "rust").get? "kind" = some (.str "rust") := get?_ofMembers (by simp) _
    refine first_here ((expectKind_bind hkind).trans ?_)
    rw [Representation.json, asShape_eq_ok (ReprModifier.read_json full "rust" h)]
    rfl
  | c modifier =>
    have hkind : (modifier.json full "c").get? "kind" = some (.str "c") := get?_ofMembers (by simp) _
    refine first_later ((refuses_kind hkind (by decide)).bind _) (first_here ((expectKind_bind hkind).trans ?_))
    rw [Representation.json, asShape_eq_ok (ReprModifier.read_json full "c" h)]
    rfl
  | transparent =>
    have hkind : (Representation.transparent.json full).get? "kind" = some (.str "transparent") := get?_single _ _ _
    refine first_later ((refuses_kind hkind (by decide)).bind _) (first_later
      ((refuses_kind hkind (by decide)).bind _) (first_here ?_))
    rw [expectKind_eq_ok.mpr hkind]
    rfl

theorem Representation.json_ne_null (r : Representation) : r.json full ≠ .null := by
  cases r <;> exact fun h => nomatch h

/-- No list of fields without names is empty. -/
theorem Fields.Expressible.ne_tuple_nil {fields : Fields} (h : fields.Expressible) : fields ≠ .tuple [] := by
  rintro rfl
  exact h.1 rfl

theorem Body.read_json {body : Body} (h : body.Expressible) : Body.read (body.json full) = .ok body := by
  apply firstMatch_of_first
  cases body with
  | struct fields =>
    have hkind : ((Body.struct fields).json full).get? "kind" = some (.str "struct") := get?_ofMembers (by simp) _
    have hfields : ((Body.struct fields).json full).get? "fields"
        = written full fields.isNone (orNull (Fields.json full) fields) := get?_ofMembers (by simp) _
    refine first_here ((expectKind_bind hkind).trans ?_)
    rw [hfields]
    cases fields with
    | none => cases full <;> rfl
    | some list =>
      have hlist := Fields.read_json full (h list rfl).ne_tuple_nil
      have hwritten : written full (some list).isNone (orNull (Fields.json full) (some list))
          = some (list.json full) := by cases full <;> rfl
      rw [hwritten]
      cases list <;> exact congrArg (Except.map fun list => Body.struct (some list)) hlist
  | enum variants =>
    have hkind : ((Body.enum variants).json full).get? "kind" = some (.str "enum") := get?_ofMembers (by simp) _
    have hvariants : ((Body.enum variants).json full).get? "variants"
        = some (.arr (variants.map (Variant.json full))) := get?_ofMembers (by simp) _
    have hread : ValueReader.list Variant.read (.arr (variants.map (Variant.json full))) = .ok variants :=
      list_map_eq_ok fun v hv => Variant.read_json full fun list hlist => (h v hv list hlist).ne_tuple_nil
    refine first_later ((refuses_kind hkind (by decide)).bind _) (first_here ((expectKind_bind hkind).trans ?_))
    rw [requireKey_bind hvariants, asShape_eq_ok hread]
    rfl
  | aliasOf ty =>
    have hkind : ((Body.aliasOf ty).json full).get? "kind" = some (.str "type") := get?_ofMembers (by simp) _
    have halias : ((Body.aliasOf ty).json full).get? "alias" = some (ty.json full) := get?_ofMembers (by simp) _
    refine first_later ((refuses_kind hkind (by decide)).bind _) (first_later
      ((refuses_kind hkind (by decide)).bind _) (first_here ((expectKind_bind hkind).trans ?_)))
    rw [requireKey_bind halias, ty.read_json full]
    rfl

end Reading

/-- A definition that can be written at all is read as it was. -/
theorem TypeDef.read_written (full : Bool) (d : TypeDef) (h : d.Expressible) :
    (d.json full).Plain ∧ TypeDef.read (d.json full) = .ok d := by
  refine ⟨TypeDef.plain_json h, readRecord_ofMembers (by simp) fun entries hentries => ?_⟩
  have hname : entries.lookup "name" = some (.str d.name) := hentries "name"
  have hdocs : entries.lookup "docs" = written full d.docs.isEmpty (.arr (d.docs.map .str)) := hentries "docs"
  have hserialization : entries.lookup "serialization"
      = written full (d.serialization = .borsh) d.serialization.json := hentries "serialization"
  have hrepr : entries.lookup "repr"
      = written full d.representation.isNone (orNull (Representation.json full) d.representation) := hentries "repr"
  have hparams : entries.lookup "generics" = written full d.params.isEmpty (.arr (d.params.map Param.json)) :=
    hentries "generics"
  have htype : entries.lookup "type" = some (d.body.json full) := hentries "type"
  have hread := nullable_orNull fun r hr =>
    ⟨ofShape_eq_ok (Representation.read_json full (h.aligned r hr)), r.json_ne_null full⟩
  rw [required_eq hname (read_text d.name),
    optional_written hdocs (read_texts d.docs) List.isEmpty_iff.mp,
    optional_written hserialization (ofShape_eq_ok d.serialization.read_json) decide_eq_true_iff.mp,
    optional_written hrepr hread Option.isNone_iff_eq_none.mp,
    optional_written hparams (list_map_eq_ok fun param _ => ofShape_eq_ok param.read_json) List.isEmpty_iff.mp,
    required_eq htype (ofShape_eq_ok (Body.read_json full h.body))]
  rfl

/-- Types in types, arguments of both kinds, payloads of both kinds, an aligned representation and null. -/
theorem TypeDef.read_written_tree :
    let d : TypeDef := ⟨"Tree", ["of things"], .custom "own", some (.c ⟨true, some 16⟩),
      [.type "T", .const "N" "usize"], .enum [⟨"Leaf", none⟩, ⟨"Many", some (.tuple
        [.array (some (.generic "T")) (.generic "N"), .option .word (some (.vec none))])⟩,
        ⟨"Node", some (.named [⟨"next", [], .defined "Pair"
          [.type (.array (some (.prim (.scalar .u8))) (.value 32)), .const "2"]⟩])⟩, ⟨"None", some (.named [])⟩]⟩
    d.Expressible ∧ (d.json false).Plain ∧ TypeDef.read (d.json false) = .ok d
      ∧ (d.json true).Plain ∧ TypeDef.read (d.json true) = .ok d := by
  intro d
  have hd : d.Expressible := by
    constructor
    · simp [d, Body.Expressible, Fields.Expressible, Ty.Sized, Ty.within, withinSlot, withinArgs]
    · simp [d, Representation.align?]
  exact ⟨hd, (d.read_written false hd).1, (d.read_written false hd).2, (d.read_written true hd).1, (d.read_written true hd).2⟩

end WireSchema.Schema
