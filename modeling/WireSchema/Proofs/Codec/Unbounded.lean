import WireSchema.Proofs.Codec.Cycles
import WireSchema.Proofs.EarlyChecks

/-!
# Recursion without a bound

The sizes follow keys, and the encoder follows aliases, as often as there are
layouts. Here nothing is counted: every key is followed to wherever it leads, and
`none` means that this never comes to an end. Where no type contains itself it
always does, with the same sizes, bytes and errors. Nothing is said about how
deep the recursion gets, nor about the decoder, whose limit on levels is its own.
-/

namespace WireSchema

set_option autoImplicit false

open Schema

/-- A part of a codec that is visited for the codec itself, whatever the value is. -/
inductive LayoutSet.PartOf (set : LayoutSet) : Codec → Codec → Prop
  | element {inner : Codec} {length : Nat} : PartOf set inner (.array inner length)
  | held {key : String} {layout : Layout} {codec : Codec} : set.get? key = some layout → layout.Holds codec →
      PartOf set codec (.defined key)

/-- A set whose keys are followed without counting. -/
abbrev Unbounded : Type := LayoutSet

/-- A writing step that may not come to an end. -/
abbrev Writing : Type → Type := ExceptT CodecError (StateT (Array UInt8) Option)

def Encoder.atOnce (encoder : Encoder) : Writing Unit :=
  ExceptT.mk fun buffer => some (encoder.run buffer)

namespace Unbounded

def known (size : Option Nat) : OptionT Option Nat :=
  OptionT.mk (some size)

mutual

/-- The exact size, if the search for it ends and there is one. -/
def fixedSize (set : Unbounded) (codec : Codec) : OptionT Option Nat :=
  match codec with
  | .prim p => known p.fixedSize?
  | .option _ _ | .vec _ => failure
  | .array inner length => do known (checked ((← set |>.fixedSize inner) * length))
  | .defined key =>
    match set.get? key with
    | none => failure
    | some (.struct fields) => set |>.fieldsFixedSize fields
    | some (.simpleEnum _) => return 1
    | some (.complexEnum []) => failure
    | some (.complexEnum (first :: rest)) => do
      let size ← set |>.fieldsFixedSize (first.fields.getD [])
      rest.forM fun v => do
        if (← set |>.fieldsFixedSize (v.fields.getD [])) ≠ size then failure
      known (checked (size + 1))
    | some (.aliasOf inner) => set |>.fixedSize inner
partial_fixpoint

def fieldsFixedSize (set : Unbounded) (fields : List FieldCodec) : OptionT Option Nat :=
  fields.foldlM (fun total f => do known (checked (total + (← set |>.fixedSize f.codec)))) 0
partial_fixpoint

end

def minSize (set : Unbounded) (codec : Codec) : Option Nat :=
  match codec with
  | .prim p => some p.minSize
  | .option tag _ => some tag.size
  | .vec _ => some 4
  | .array inner length => do return saturated ((← set |>.minSize inner) * length)
  | .defined key =>
    match set.get? key with
    | none => some 1
    | some (.struct fields) =>
      fields.foldlM (fun total f => do return saturated (total + (← set |>.minSize f.codec))) 0
    | some (.simpleEnum _) | some (.complexEnum _) => some 1
    | some (.aliasOf inner) => set |>.minSize inner
partial_fixpoint

def refuseZeroSized (set : Unbounded) (inner : Codec) (count : Nat) : Writing Unit := do
  if 0 < count then
    if (← minSize set inner) = 0 then
      throw (.zeroSizedElements inner.text count)

def writePrimitive : Primitive → Value → Encoder
  | .bool, .bool b => Encoder.emit [if b then 1 else 0]
  | .scalar s', .scalar s bits =>
    if s' = s then Encoder.emit (Bytes.leBytes s.size bits.toNat)
    else throw (.typeMismatch s'.keyword s.keyword)
  | .bytes, .bytes data => do
    Encoder.emitCount data.length
    Encoder.emit data
  | .string, .string text => do
    Encoder.emitCount (Text.utf8 text).length
    Encoder.emit (Text.utf8 text)
  | p, value => throw (.typeMismatch p.keyword value.kind)

mutual

/-- Write a value under a codec, and an alias like what it stands for. -/
def write (set : Unbounded) (codec : Codec) (value : Value) : Writing Unit :=
  match codec, value with
  | .prim p, value => (writePrimitive p value).atOnce
  | .option tag' inner, .option tag payload =>
    if tag' = tag then
      match payload with
      | none => (Encoder.emit (Bytes.leBytes tag.size 0)).atOnce
      | some v => do
        (Encoder.emit (Bytes.leBytes tag.size 1)).atOnce
        set |>.write inner v
    else throw (.typeMismatch (Codec.option tag' inner).text tag.key)
  | .vec inner, .vec items => do
    refuseZeroSized set inner items.length
    (Encoder.emitCount items.length).atOnce
    items.forM (set |>.write inner)
  | .array inner length, .array items => do
    if items.length ≠ length then throw (.arrayLength length items.length)
    refuseZeroSized set inner items.length
    items.forM (set |>.write inner)
  | .defined key, value =>
    match set.get? key with
    | some layout => set |>.writeLayout key layout value
    | none => throw (.missingLayout key)
  | codec, value => throw (.typeMismatch codec.text value.kind)
partial_fixpoint

def writeLayout (set : Unbounded) (key : String) (layout : Layout) (value : Value) : Writing Unit :=
  match layout, value with
  | .struct codecs, .struct values => set |>.writeFields values codecs
  | .simpleEnum names, .enum variant payload =>
    (writeSimple key names variant (payload.getD []).length).atOnce
  | .complexEnum variants, .enum variant payload =>
    match variants.findIdx? (·.name = variant) with
    | none => throw (.unknownVariant key variant)
    | some index => do
      (Encoder.emit [UInt8.ofNat index]).atOnce
      match variants[index]?.bind VariantCodec.fields, payload with
      | some codecs, some values => set |>.writeFields values codecs
      | some [], none => return ()
      | some (first :: _), none => throw (.missingField s!"{key}::{variant}.{first.name}")
      | none, some (_ :: _) => throw (.typeMismatch s!"unit variant {key}::{variant}" "variant with fields")
      | none, _ => return ()
  | .aliasOf inner, value => set |>.write inner value
  | _, value => throw (.typeMismatch key value.kind)
partial_fixpoint

def writeFields (set : Unbounded) (values : List (String × Value)) (codecs : List FieldCodec) : Writing Unit :=
  codecs.forM fun field =>
    match values.lookup field.name with
    | some value => set |>.write field.codec value
    | none => throw (.missingField field.name)
partial_fixpoint

end

end Unbounded

namespace LayoutSet

variable {set : LayoutSet} {key : String}

theorem directlyIn_of_holds {layout : Layout} {codec : Codec} {inner : String} (hkey : set.get? key = some layout)
    (hcodec : layout.Holds codec) (hinner : codec.directKey? = some inner) : set.DirectlyIn inner key :=
  refersTo_iff.mp ⟨layout, codec, hkey, hcodec, Codec.embeds_iff.mpr hinner⟩

theorem acc_partOf {codec : Codec} (h : ∀ key, codec.directKey? = some key → Acc set.PartOf (.defined key)) :
    Acc set.PartOf codec := by
  induction codec with
  | defined key => exact h key rfl
  | array inner length ih =>
    constructor
    intro part hpart
    cases hpart with
    | element => exact ih h
  | _ =>
    constructor
    intro part hpart
    cases hpart

/-- Elements and aliases lead to parts as long as no key comes again. -/
theorem wellFounded_partOf (hset : WellFounded set.DirectlyIn) : WellFounded set.PartOf := by
  have hkeys : ∀ key, Acc set.PartOf (.defined key) := by
    intro key
    induction key using hset.induction with
    | _ key ih =>
      constructor
      intro codec hpart
      cases hpart with
      | held hkey hcodec => exact acc_partOf fun inner hinner => ih inner (directlyIn_of_holds hkey hcodec hinner)
  exact ⟨fun codec => acc_partOf fun key _ => hkeys key⟩

end LayoutSet

section Sizes

variable {set : LayoutSet} {key : String}

namespace Unbounded

section Exact

variable {α β : Type}

theorem run_bind_of {x : OptionT Option α} {a : Option α} {f : α → OptionT Option β} {g : α → Option β}
    (hx : x.run = some a) (hf : ∀ a, (f a).run = some (g a)) : (x >>= f).run = some (a >>= g) := by
  rw [OptionT.run_bind, hx]
  cases a with
  | none => rfl
  | some a => exact hf a

theorem run_foldlM_of {f : β → α → OptionT Option β} {g : β → α → Option β} {as : List α}
    (h : ∀ a ∈ as, ∀ b, (f b a).run = some (g b a)) (b : β) : (as.foldlM f b).run = some (as.foldlM g b) := by
  induction as generalizing b with
  | nil => rfl
  | cons a rest ih =>
    rw [List.foldlM_cons, List.foldlM_cons]
    exact run_bind_of (h a List.mem_cons_self b) (ih fun a ha => h a (List.mem_cons_of_mem _ ha))

/-- The elements are gone through up to one that does not pass. -/
theorem run_forM_of {f : α → OptionT Option Unit} {p : α → Bool} {as : List α}
    (h : ∀ a ∈ as, (f a).run = some (if p a then some () else none)) :
    (as.forM f).run = some (if as.all p then some () else none) := by
  induction as with
  | nil => rfl
  | cons a rest ih =>
    have hrest := ih fun a ha => h a (List.mem_cons_of_mem _ ha)
    rw [List.forM, OptionT.run_bind, h a List.mem_cons_self, List.all_cons]
    cases p a with
    | false => rfl
    | true => exact hrest

variable {ofKey : String → Option Nat}

theorem run_fieldsFixedSize {fields : List FieldCodec}
    (h : ∀ f ∈ fields, (fixedSize set f.codec).run = some (f.codec.fixedSize? ofKey)) :
    (fieldsFixedSize set fields).run = some (fieldsFixedSize? ofKey fields) := by
  rw [fieldsFixedSize, fieldsFixedSize?]
  exact run_foldlM_of (fun f hf total => run_bind_of (h f hf) fun _ => rfl) 0

theorem run_sameSize {v : VariantCodec} {size : Nat}
    (h : (fieldsFixedSize set (v.fields.getD [])).run = some (v.fixedSize? ofKey)) :
    (do if (← fieldsFixedSize set (v.fields.getD [])) ≠ size then failure : OptionT Option Unit).run
      = some (if decide (v.fixedSize? ofKey = some size) then some () else none) := by
  rw [OptionT.run_bind, h]
  cases v.fixedSize? ofKey with
  | none => rfl
  | some other =>
    by_cases heq : other = size
    · simp [heq, Option.elimM]
    · simp [heq, Option.elimM]

theorem run_fixedSize_layout {layout : Layout} (hkey : set.get? key = some layout)
    (h : ∀ codec, layout.Holds codec → (fixedSize set codec).run = some (codec.fixedSize? ofKey)) :
    (fixedSize set (.defined key)).run = some (layout.fixedSize? ofKey) := by
  rw [fixedSize, hkey]
  cases layout with
  | struct fields => exact run_fieldsFixedSize fun f hf => h f.codec (.field hf)
  | simpleEnum names => rfl
  | complexEnum variants =>
    have hvariants : ∀ v ∈ variants, (fieldsFixedSize set (v.fields.getD [])).run = some (v.fixedSize? ofKey) :=
      fun v hv => run_fieldsFixedSize fun f hf => h f.codec (.payload hv hf)
    cases variants with
    | nil => rfl
    | cons first rest =>
      obtain ⟨hfirst, hrest⟩ := List.forall_mem_cons.mp hvariants
      refine run_bind_of hfirst fun size => ?_
      rw [OptionT.run_bind, run_forM_of fun v hv => run_sameSize (hrest v hv)]
      split <;> rfl
  | aliasOf inner => exact h inner .aliased

theorem run_fixedSize_codec {codec : Codec}
    (h : ∀ key, codec.directKey? = some key → (fixedSize set (.defined key)).run = some (ofKey key)) :
    (fixedSize set codec).run = some (codec.fixedSize? ofKey) := by
  induction codec with
  | array inner length ih =>
    rw [fixedSize]
    exact run_bind_of (ih h) fun _ => rfl
  | defined key => exact h key rfl
  | _ =>
    rw [fixedSize]
    rfl

end Exact

theorem run_fixedSize_key {n : Nat} (h : set.Shallow n key) :
    (fixedSize set (.defined key)).run = some (set.keyFixedSize? n key) := by
  induction h with
  | @intro n key _ ih =>
    rw [LayoutSet.keyFixedSize?]
    cases hkey : set.get? key with
    | none =>
      rw [fixedSize, hkey]
      rfl
    | some layout =>
      refine run_fixedSize_layout hkey fun codec hcodec => ?_
      exact run_fixedSize_codec fun inner hinner => ih inner (LayoutSet.directlyIn_of_holds hkey hcodec hinner)

theorem fixedSize_eq (hset : WellFounded set.DirectlyIn) (codec : Codec) :
    (fixedSize set codec).run = some (set.fixedSize? codec) :=
  run_fixedSize_codec fun key _ => run_fixedSize_key (LayoutSet.shallow hset key)

section Least

variable {ofKey : String → Nat}

theorem minSize_fields {fields : List FieldCodec}
    (h : ∀ f ∈ fields, minSize set f.codec = some (f.codec.minSize ofKey)) (before : Nat) :
    fields.foldlM (fun total f => do return saturated (total + (← minSize set f.codec))) before
      = some (fields.foldl (fun total f => saturated (total + f.codec.minSize ofKey)) before) := by
  induction fields generalizing before with
  | nil => rfl
  | cons field rest ih =>
    rw [List.foldlM_cons, List.foldl_cons, h field List.mem_cons_self]
    exact ih (fun f hf => h f (List.mem_cons_of_mem _ hf)) _

theorem minSize_layout {layout : Layout} (hkey : set.get? key = some layout)
    (h : ∀ codec, layout.Holds codec → minSize set codec = some (codec.minSize ofKey)) :
    minSize set (.defined key) = some (layout.minSize ofKey) := by
  rw [minSize, hkey]
  cases layout with
  | struct fields => exact minSize_fields (fun f hf => h f.codec (.field hf)) 0
  | aliasOf inner => exact h inner .aliased
  | _ => rfl

theorem minSize_codec {codec : Codec}
    (h : ∀ key, codec.directKey? = some key → minSize set (.defined key) = some (ofKey key)) :
    minSize set codec = some (codec.minSize ofKey) := by
  induction codec with
  | array inner length ih =>
    rw [minSize, ih h]
    rfl
  | defined key => exact h key rfl
  | _ => rw [minSize, Codec.minSize]

end Least

theorem minSize_key {n : Nat} (h : set.Shallow n key) :
    minSize set (.defined key) = some (set.keyMinSize n key) := by
  induction h with
  | @intro n key _ ih =>
    rw [LayoutSet.keyMinSize]
    cases hkey : set.get? key with
    | none => rw [minSize, hkey]
    | some layout =>
      refine minSize_layout hkey fun codec hcodec => ?_
      exact minSize_codec fun inner hinner => ih inner (LayoutSet.directlyIn_of_holds hkey hcodec hinner)

theorem minSize_eq (hset : WellFounded set.DirectlyIn) (codec : Codec) :
    minSize set codec = some (set.minSize codec) :=
  minSize_codec fun key _ => minSize_key (LayoutSet.shallow hset key)

/-- An alias of itself leads nowhere, not even to a wrong size. -/
theorem minSize_eq_none (hkey : set.get? key = some (.aliasOf (.defined key))) :
    minSize set (.defined key) = none := by
  have hother : ∀ codec n, minSize set codec = some n → codec ≠ .defined key := by
    apply minSize.partial_correctness
    -- The key is asked for again, so that no stage of the search has a size for it unless one before has.
    rintro search ih codec n hn rfl
    dsimp only at hn
    rw [hkey] at hn
    exact ih (.defined key) n hn rfl
  cases h : minSize set (.defined key) with
  | none => rfl
  | some n => exact absurd rfl (hother _ n h)

end Unbounded

end Sizes

end WireSchema
