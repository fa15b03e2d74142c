import WireSchema.Proofs.Codec.Canonical
import WireSchema.Proofs.Codec.Unbounded

/-!
# Sizes and writing come to an end

Two measures carry the recursion of the encoder: a value gets smaller where its
parts are written, and an alias only leads to codecs further down a descent that
is finite. So it needs no bound, and what it does with one it does without.
-/

namespace WireSchema

set_option autoImplicit false

open Schema

namespace LayoutSet

variable {set : LayoutSet} {key : String} {n fuel : Nat}

theorem targetWithin_defined {inner : Codec} (hkey : set.get? key = some (.aliasOf inner)) (fuel : Nat) :
    set.targetWithin (fuel + 1) (.defined key) = set.targetWithin fuel inner := by
  rw [targetWithin, hkey]

theorem Shallow.targetWithin_eq (h : set.Shallow n key) (hfuel : n ≤ fuel) :
    set.targetWithin fuel (.defined key) = set.targetWithin n (.defined key) := by
  refine h.eq_of_le (f := fun n key => set.targetWithin n (.defined key)) (fun key n m hinside => ?_) hfuel
  rcases hkey : set.get? key with _ | _ | _ | _ | inner
  case some.aliasOf =>
    rw [targetWithin_defined hkey, targetWithin_defined hkey]
    cases inner with
    | defined next => exact hinside next (directlyIn_of_holds hkey .aliased rfl)
    | _ => simp [targetWithin]
  all_goals simp [targetWithin, hkey]

/-- An alias comes to what its codec comes to. -/
theorem target_defined (hset : WellFounded set.DirectlyIn) {inner : Codec}
    (hkey : set.get? key = some (.aliasOf inner)) : set.target (.defined key) = set.target inner := by
  have hmore := (shallow hset key).targetWithin_eq (Nat.le_succ _)
  rw [targetWithin_defined hkey] at hmore
  exact hmore.symm

end LayoutSet

section Writing

variable {set : LayoutSet} {key : String} {a b : Encoder}

namespace Encoder

theorem atOnce_bind : atOnce (do a; b) = (do a.atOnce; b.atOnce) := by
  apply ExceptT.ext
  apply StateT.ext
  intro buffer
  rw [ExceptT.run_bind, StateT.run_bind]
  change some ((do a; b).run buffer) = some (a.run buffer) >>= fun after => _
  rcases h : a.run buffer with ⟨error | _, after⟩
  · rw [Step.run_bind_error h]
    rfl
  · rw [Step.run_bind_ok h]
    rfl

end Encoder

/-- To write the value under the codec comes to an end, with the outcome that it has with a bound. -/
def LayoutSet.Ends (set : LayoutSet) (codec : Codec) (v : Value) : Prop :=
  Unbounded.write set codec v = (v.write set codec).atOnce

namespace Unbounded

theorem refuseZeroSized_eq (hset : WellFounded set.DirectlyIn) (inner : Codec) (count : Nat) :
    refuseZeroSized set inner count = match set.refuseZeroSized inner count with
      | some error => throw error
      | none => pure () := by
  rw [refuseZeroSized, LayoutSet.refuseZeroSized, minSize_eq hset]
  by_cases hcount : 0 < count
  · by_cases hzero : set.minSize inner = 0
    · simp only [hcount, hzero, and_self, if_true]
      rfl
    · simp only [hcount, hzero, and_false, if_true, if_false]
      change (if set.minSize inner = 0 then _ else _) = _
      rw [if_neg hzero]
  · simp only [hcount, false_and, if_false]

theorem refuseZeroSized_bind (hset : WellFounded set.DirectlyIn) (inner : Codec) (count : Nat) :
    (do refuseZeroSized set inner count; b.atOnce) = Encoder.atOnce (do
      if let some error := set.refuseZeroSized inner count then throw error
      b) := by
  rw [refuseZeroSized_eq hset]
  cases set.refuseZeroSized inner count with
  | none => rfl
  | some error => exact Encoder.atOnce_bind.symm

theorem forM_write {inner : Codec} {items : List Value} (h : ∀ v ∈ items, set.Ends inner v) :
    items.forM (write set inner) = (writeItems set inner items).atOnce := by
  induction items with
  | nil => rfl
  | cons item rest ih =>
    have hitem : set.Ends inner item := h item List.mem_cons_self
    have hrest := ih fun v hv => h v (List.mem_cons_of_mem _ hv)
    rw [writeItems, Encoder.atOnce_bind, List.forM, hitem, hrest]

theorem writeFields_eq {values : List (String × Value)} (h : ∀ f ∈ values, ∀ codec, set.Ends codec f.2)
    (codecs : List FieldCodec) :
    writeFields set values codecs = (WireSchema.writeFields (fieldWriters set values) codecs).atOnce := by
  rw [writeFields]
  induction codecs with
  | nil => rfl
  | cons field rest ih =>
    rw [List.forM, ih, WireSchema.writeFields, lookup_fieldWriters]
    cases hvalue : values.lookup field.name with
    | none => exact Encoder.atOnce_bind.symm
    | some v =>
      have hwrite : set.Ends field.codec v := h _ (Keyed.mem_of_lookup hvalue) field.codec
      dsimp only [Option.map_some]
      rw [hwrite, Encoder.atOnce_bind]

theorem write_prim (p : Primitive) (v : Value) : set.Ends (.prim p) v := by
  rw [LayoutSet.Ends, write]
  cases v with
  | enum variant payload => cases p <;> cases payload <;> rfl
  | _ => cases p <;> rfl

theorem write_missing (hkey : set.get? key = none) (v : Value) : set.Ends (.defined key) v := by
  have ht : set.target (.defined key) = .missing key := by simp [LayoutSet.target, LayoutSet.targetWithin, hkey]
  rw [LayoutSet.Ends, write, hkey]
  cases v with
  | enum variant payload =>
    rw [Value.write_enum, ht]
    rfl
  | _ =>
    rw [Value.write, ht]
    rfl

theorem write_option {v : Value} (ih : ∀ w ∈ v.parts, ∀ codec, set.Ends codec w) (tag : OptionTag) (inner : Codec) :
    set.Ends (.option tag inner) v := by
  rw [LayoutSet.Ends, write.eq_def]
  cases v with
  | option tag' payload =>
    change (if tag = tag' then _ else _) = Encoder.atOnce (if tag = tag' then _ else _)
    split
    · cases payload with
      | none => rfl
      | some w =>
        have hw : set.Ends inner w := ih w (List.mem_singleton_self w) inner
        dsimp only
        rw [writePayload, Encoder.atOnce_bind, hw]
    · rfl
  | enum variant payload => cases payload <;> rfl
  | _ => rfl

theorem write_vec (hset : WellFounded set.DirectlyIn) {v : Value} (ih : ∀ w ∈ v.parts, ∀ codec, set.Ends codec w)
    (inner : Codec) : set.Ends (.vec inner) v := by
  rw [LayoutSet.Ends, write.eq_def]
  cases v with
  | vec items =>
    have hitems : ∀ w ∈ items, set.Ends inner w := fun w hw => ih w hw inner
    dsimp only
    rw [forM_write hitems, ← Encoder.atOnce_bind, refuseZeroSized_bind hset]
    rfl
  | enum variant payload => cases payload <;> rfl
  | _ => rfl

theorem write_array (hset : WellFounded set.DirectlyIn) {v : Value} (ih : ∀ w ∈ v.parts, ∀ codec, set.Ends codec w)
    (inner : Codec) (length : Nat) : set.Ends (.array inner length) v := by
  rw [LayoutSet.Ends, write.eq_def]
  cases v with
  | array items =>
    have hitems : ∀ w ∈ items, set.Ends inner w := fun w hw => ih w hw inner
    dsimp only
    rw [forM_write hitems, refuseZeroSized_bind hset]
    change _ = Encoder.atOnce (if items.length ≠ length then _ else _)
    split
    · exact Encoder.atOnce_bind.symm
    · rfl
  | enum variant payload => cases payload <;> rfl
  | _ => rfl

theorem ends_of_layout {layout : Layout} (hkey : set.get? key = some layout)
    (hlayout : ∀ inner, layout ≠ .aliasOf inner) {v : Value}
    (h : set.target (.defined key) = .layout key layout →
      writeLayout set key layout v = (v.write set (.defined key)).atOnce) : set.Ends (.defined key) v := by
  have hchain : LayoutSet.AliasChain set [] (.defined key) (.layout key layout) := .layout hkey hlayout
  rw [LayoutSet.Ends, write, hkey]
  exact h hchain.target

theorem write_struct {codecs : List FieldCodec} (hkey : set.get? key = some (.struct codecs)) {v : Value}
    (ih : ∀ w ∈ v.parts, ∀ codec, set.Ends codec w) : set.Ends (.defined key) v := by
  refine ends_of_layout hkey (fun _ h => nomatch h) fun ht => ?_
  rw [writeLayout.eq_def]
  cases v with
  | struct values =>
    have hvalues : ∀ f ∈ values, ∀ codec, set.Ends codec f.2 := fun f hf => ih f.2 (List.mem_map_of_mem hf)
    rw [Value.write, ht]
    exact writeFields_eq hvalues codecs
  | enum variant payload =>
    rw [Value.write_enum, ht]
    rfl
  | _ =>
    rw [Value.write, ht]
    rfl

theorem write_simpleEnum {names : List String} (hkey : set.get? key = some (.simpleEnum names)) (v : Value) :
    set.Ends (.defined key) v := by
  refine ends_of_layout hkey (fun _ h => nomatch h) fun ht => ?_
  rw [writeLayout.eq_def]
  cases v with
  | enum variant payload => rw [Value.write_enum, ht]
  | _ =>
    rw [Value.write, ht]
    rfl

theorem write_complexEnum {variants : List VariantCodec} (hkey : set.get? key = some (.complexEnum variants)) {v : Value}
    (ih : ∀ w ∈ v.parts, ∀ codec, set.Ends codec w) : set.Ends (.defined key) v := by
  refine ends_of_layout hkey (fun _ h => nomatch h) fun ht => ?_
  rw [writeLayout.eq_def]
  cases v with
  | enum variant payload =>
    rw [Value.write_enum, ht]
    dsimp only
    rw [writeComplex_eq]
    cases variants.findIdx? (·.name = variant) with
    | none => rfl
    | some index =>
      dsimp only
      rw [Encoder.atOnce_bind]
      cases variants[index]?.bind VariantCodec.fields with
      | none => rcases payload with _ | _ | _ <;> rfl
      | some codecs =>
        cases payload with
        | none => cases codecs <;> rfl
        | some values =>
          have hvalues : ∀ f ∈ values, ∀ codec, set.Ends codec f.2 := fun f hf => ih f.2 (List.mem_map_of_mem hf)
          -- The index is written alike, whatever comes of the payload.
          change (do _; writeFields set values codecs) = _
          rw [writeFields_eq hvalues]
          rfl
  | _ =>
    rw [Value.write, ht]
    rfl

theorem write_alias (hset : WellFounded set.DirectlyIn) {inner : Codec} (hkey : set.get? key = some (.aliasOf inner))
    {v : Value} (h : set.Ends inner v) : set.Ends (.defined key) v := by
  have hwrite : v.write set (.defined key) = v.write set inner :=
    LayoutSet.write_eq_of_target_eq (LayoutSet.target_defined hset hkey) v
  rw [LayoutSet.Ends, write, hkey, hwrite]
  dsimp only
  rw [writeLayout]
  exact h

/-- The induction is on the value, and for one value on the descent through aliases. -/
theorem write_eq (hset : WellFounded set.DirectlyIn) (v : Value) : ∀ codec, set.Ends codec v := by
  induction v using Value.induction_parts with
  | h v ih =>
    intro codec
    induction codec using (LayoutSet.wellFounded_partOf hset).induction with
    | _ codec ihpart =>
      -- Only an alias keeps the value. All other codecs go on with its parts.
      cases codec with
      | prim p => exact write_prim p v
      | option tag inner => exact write_option ih tag inner
      | vec inner => exact write_vec hset ih inner
      | array inner length => exact write_array hset ih inner length
      | defined key =>
        cases hkey : set.get? key with
        | none => exact write_missing hkey v
        | some layout =>
          cases layout with
          | struct codecs => exact write_struct hkey ih
          | simpleEnum names => exact write_simpleEnum hkey v
          | complexEnum variants => exact write_complexEnum hkey ih
          | aliasOf inner => exact write_alias hset hkey (ihpart inner (.held hkey .aliased))

end Unbounded

end Writing

namespace LayoutSet

/-- In every set that is handed out, to look into parts comes to an end, so that the sizes and the encoder
always return without counting, and what they return with counting. -/
theorem unbounded_returns {types : List TypeDef} {set : LayoutSet} (hset : (Registry.ofTypes types).Finishes set) :
    WellFounded set.PartOf
      ∧ ∀ codec,
        (Unbounded.fixedSize set codec).run = some (set.fixedSize? codec)
        ∧ Unbounded.minSize set codec = some (set.minSize codec)
        ∧ ∀ v buffer, (Unbounded.write set codec v).run buffer = some ((set.encodeInto codec v).run buffer) := by
  have hground := wellFounded_of_finishes hset
  refine ⟨wellFounded_partOf hground, fun codec => ?_⟩
  refine ⟨Unbounded.fixedSize_eq hground codec, Unbounded.minSize_eq hground codec, fun v buffer => ?_⟩
  have hwrite : Unbounded.write set codec v = (v.write set codec).atOnce := Unbounded.write_eq hground v codec
  rw [hwrite]
  rfl

/-- Trees hold trees in an optional value and in a vector, there through an alias. -/
theorem unbounded_returns_tree :
    let tree : TypeDef := .record "Tree" []
      [("left", .option .byte (some (.defined "Tree" []))), ("rows", .vec (some (.defined "Row" [])))]
    let row : TypeDef := ⟨"Row", [], .borsh, none, [], .aliasOf (.array (some (.defined "Tree" [])) (.value 2))⟩
    let set : LayoutSet := ⟨[("Row", .aliasOf (.array (.defined "Tree") 2)),
      ("Tree", .struct [⟨"left", .option .byte (.defined "Tree")⟩, ⟨"rows", .vec (.defined "Row")⟩])]⟩
    let leaf : Value := .struct [("left", .option .byte none), ("rows", .vec [])]
    let node : Value := .struct [("left", .option .byte (some leaf)), ("rows", .vec [])]
    (Registry.ofTypes [tree, row]).Finishes set
      ∧ (Unbounded.fixedSize set (.defined "Row")).run = some none
      ∧ Unbounded.minSize set (.defined "Row") = some 10
      ∧ (Unbounded.write set (.defined "Row") (.array [leaf, node])).run #[9]
        = some (.ok (), #[9, 0, 0, 0, 0, 0, 1, 0, 0, 0, 0, 0, 0, 0, 0, 0])
      ∧ (Unbounded.write set (.defined "Row") (.array [leaf])).run #[9] = some (.error (.arrayLength 2 1), #[9]) := by
  intro tree row set leaf node
  have hset : (Registry.ofTypes [tree, row]).Finishes set := ⟨[.definitions], by decide +kernel⟩
  obtain ⟨-, hreturns⟩ := unbounded_returns hset
  obtain ⟨hfixed, hleast, hwrite⟩ := hreturns (.defined "Row")
  refine ⟨hset, ?_, ?_, ?_, ?_⟩
  · rw [hfixed]
    rfl
  · rw [hleast]
    rfl
  · rw [hwrite]
    rfl
  · rw [hwrite]
    rfl

end LayoutSet

end WireSchema
