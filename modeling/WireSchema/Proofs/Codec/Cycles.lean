import Mathlib.Logic.Relation
import Mathlib.Order.WellFounded
import WireSchema.Proofs.Codec.Recursion
import WireSchema.Proofs.Derivation.Requests
import WireSchema.Proofs.Schema.Validation

/-!
# Types that contain themselves

A type refers to another directly if it has it in a field, in a payload or as
what it is an alias of, outside of any optional value and any vector; elements
of arrays count. The search for types that contain themselves finds one if and
only if the direct references have a cycle, and the one it reports lies on a
cycle. A type that only leads to a cycle may be passed on the way, but is never
reported.
-/

namespace WireSchema

set_option autoImplicit false

open Schema Relation

/-- The type under a key stands in the codec, in no optional value and in no vector. -/
inductive Codec.Embeds (key : String) : Codec → Prop
  | here : Embeds key (.defined key)
  | element {inner : Codec} {length : Nat} : Embeds key inner → Embeds key (.array inner length)

/-- The codecs that a layout is made of. -/
inductive Layout.Holds : Layout → Codec → Prop
  | field {fields : List FieldCodec} {f : FieldCodec} : f ∈ fields → Holds (.struct fields) f.codec
  | payload {variants : List VariantCodec} {v : VariantCodec} {f : FieldCodec} :
      v ∈ variants → f ∈ v.fields.getD [] → Holds (.complexEnum variants) f.codec
  | aliased {codec : Codec} : Holds (.aliasOf codec) codec

/-- The layout under a key has a codec in which another key stands directly. -/
def LayoutSet.RefersTo (set : LayoutSet) (key inner : String) : Prop :=
  ∃ layout codec, set.get? key = some layout ∧ layout.Holds codec ∧ codec.Embeds inner

theorem Codec.embeds_iff {codec : Codec} {key : String} : codec.Embeds key ↔ codec.directKey? = some key := by
  constructor
  · intro h
    induction h with
    | here => rfl
    | element _ ih => exact ih
  · intro h
    induction codec with
    | defined other =>
      cases h
      exact .here
    | array inner length ih => exact .element (ih h)
    | _ => cases h

theorem mem_directKeys_iff {fields : List FieldCodec} {key : String} :
    key ∈ directKeys fields ↔ ∃ f ∈ fields, f.codec.Embeds key := by
  rw [directKeys, List.mem_filterMap]
  constructor
  · rintro ⟨f, hf, hkey⟩
    exact ⟨f, hf, Codec.embeds_iff.mpr hkey⟩
  · rintro ⟨f, hf, hkey⟩
    exact ⟨f, hf, Codec.embeds_iff.mp hkey⟩

theorem Layout.mem_directKeys_iff {layout : Layout} {key : String} :
    key ∈ layout.directKeys ↔ ∃ codec, layout.Holds codec ∧ codec.Embeds key := by
  cases layout with
  | struct fields =>
    rw [Layout.directKeys, WireSchema.mem_directKeys_iff]
    constructor
    · rintro ⟨f, hf, hkey⟩
      exact ⟨f.codec, .field hf, hkey⟩
    · rintro ⟨_, ⟨hf⟩, hkey⟩
      exact ⟨_, hf, hkey⟩
  | simpleEnum names =>
    constructor
    · intro h
      cases h
    · rintro ⟨_, ⟨⟩, -⟩
  | complexEnum variants =>
    rw [Layout.directKeys, List.mem_flatMap]
    constructor
    · rintro ⟨v, hv, hkey⟩
      obtain ⟨f, hf, hkey⟩ := WireSchema.mem_directKeys_iff.mp hkey
      exact ⟨f.codec, .payload hv hf, hkey⟩
    · rintro ⟨codec, hholds, hkey⟩
      cases hholds with
      | @payload _ v f hv hf => exact ⟨v, hv, WireSchema.mem_directKeys_iff.mpr ⟨f, hf, hkey⟩⟩
  | aliasOf codec =>
    rw [Layout.directKeys, Option.mem_toList]
    constructor
    · intro hkey
      exact ⟨codec, .aliased, Codec.embeds_iff.mpr hkey⟩
    · rintro ⟨_, ⟨⟩, hkey⟩
      exact Codec.embeds_iff.mp hkey

namespace LayoutSet

variable {set : LayoutSet} {key name : String} {keys path done : List String} {fuel : Nat}

theorem refersTo_iff {inner : String} : set.RefersTo key inner ↔ set.DirectlyIn inner key := by
  unfold RefersTo DirectlyIn directKeys
  cases hkey : set.get? key with
  | none => simp
  | some layout => simp [Layout.mem_directKeys_iff]

theorem error_of_searchAll {search : List String → String → Search} (h : searchAll search done keys = .error name) :
    ∃ key ∈ keys, ∃ before, search before key = .error name := by
  induction keys generalizing done with
  | nil => cases h
  | cons key rest ih =>
    rcases Step.error_of_bind h with hkey | ⟨middle, -, hrest⟩
    · exact ⟨key, List.mem_cons_self, done, hkey⟩
    · obtain ⟨other, hother, hsearch⟩ := ih hrest
      exact ⟨other, List.mem_cons_of_mem _ hother, hsearch⟩

/-- The path holds the keys from which the search came here. They have layouts and are all different, so
that the bound on its length is never met, and a key that is reported was come to from itself. -/
theorem cycle_of_search (hnodup : path.Nodup) (hkeys : path ⊆ set.keys)
    (habove : ∀ outer ∈ path, TransGen set.RefersTo outer key) (hfuel : set.length < fuel + path.length)
    (h : set.search fuel path done key = .error name) : TransGen set.RefersTo name name := by
  induction fuel generalizing key path done with
  | zero =>
    have hle := length_le_of_nodup hnodup hkeys
    omega
  | succ fuel ih =>
    rw [search] at h
    split at h
    · cases h
    · split at h
      · next hpath =>
        cases h
        exact habove _ (by simpa using hpath)
      · next hpath =>
        rcases Step.error_of_bind h with hinside | ⟨_, _, hdone⟩
        · obtain ⟨inner, hinner, before, hsearch⟩ := error_of_searchAll hinside
          have hrefers : set.RefersTo key inner := refersTo_iff.mpr hinner
          obtain ⟨layout, codec, hkey, -⟩ := id hrefers
          have hnew : key ∉ path := by simpa using hpath
          refine ih (List.nodup_cons.mpr ⟨hnew, hnodup⟩) ?_ ?_ ?_ hsearch
          · exact List.cons_subset.mpr ⟨mem_keys_of_get? hkey, hkeys⟩
          · intro outer houter
            rcases List.mem_cons.mp houter with rfl | houter
            · exact .single hrefers
            · exact .tail (habove outer houter) hrefers
          · rw [List.length_cons]
            omega
        · cases hdone

theorem cycle_of_selfContaining? (h : set.selfContaining? = some name) :
    TransGen set.RefersTo name name := by
  unfold selfContaining? at h
  split at h
  · cases h
  · next found hrun =>
    cases h
    obtain ⟨key, -, done, hsearch⟩ := error_of_searchAll hrun
    refine cycle_of_search .nil (List.nil_subset _) ?_ ?_ hsearch
    · intro outer houter
      cases houter
    · rw [List.length_nil]
      omega

theorem not_cycle_of_selfContaining? (h : set.selfContaining? = none) (key : String) :
    ¬ TransGen set.RefersTo key key := by
  intro hcycle
  have hle : set.RefersTo ≤ Function.swap set.DirectlyIn := fun _ _ => refersTo_iff.mp
  have hswap := TransGen.mono hle key key hcycle
  exact (wellFounded_directlyIn h).transGen.irrefl.irrefl _ (transGen_swap.mp hswap)

end LayoutSet

/-- Whatever layouts there are, they are refused if and only if one of them contains itself, and the error
names one that does. -/
theorem finishedLayouts_refuses_cycles (s : DerivationState) :
    ((∃ name, (finishedLayouts.run s).1 = .error (.recursiveType name))
        ↔ ∃ key, TransGen s.layouts.RefersTo key key)
      ∧ (∀ name, (finishedLayouts.run s).1 = .error (.recursiveType name) → TransGen s.layouts.RefersTo name name)
      ∧ ((finishedLayouts.run s).1 = .ok s.layouts ↔ ¬ ∃ key, TransGen s.layouts.RefersTo key key) := by
  rw [run_finishedLayouts]
  cases hfound : s.layouts.selfContaining? with
  | none =>
    have hnone : ¬ ∃ key, TransGen s.layouts.RefersTo key key := by
      rintro ⟨key, hcycle⟩
      exact LayoutSet.not_cycle_of_selfContaining? hfound key hcycle
    refine ⟨⟨?_, fun h => absurd h hnone⟩, ?_, iff_of_true rfl hnone⟩
    · rintro ⟨name, ⟨⟩⟩
    · intro name h
      cases h
  | some found =>
    have hcycle := LayoutSet.cycle_of_selfContaining? hfound
    refine ⟨iff_of_true ⟨found, rfl⟩ ⟨found, hcycle⟩, ?_, iff_of_false ?_ (not_not_intro ⟨found, hcycle⟩)⟩
    · intro name h
      cases h
      exact hcycle
    · intro h
      cases h

/-- The search starts at the base, which only leads to the cycle of the node and the link. -/
theorem finishedLayouts_refuses_cycles_node :
    let base : TypeDef := .record "Base" [] [("node", .defined "Node" []), ("next", .option .byte (some (.defined "Base" [])))]
    let link : TypeDef := ⟨"Link", [], .borsh, none, [], .aliasOf (.array (some (.defined "Node" [])) (.value 2))⟩
    let node : TypeDef := ⟨"Node", [], .borsh, none, [], .enum
      [⟨"leaf", none⟩, ⟨"pair", some (.named [⟨"halves", [], .defined "Link" []⟩])⟩]⟩
    let s := (Registry.ofTypes [base, link, node]).after [.definitions]
    (finishedLayouts.run s).1 = .error (.recursiveType "Node")
      ∧ TransGen s.layouts.RefersTo "Node" "Node" := by
  intro base link node s
  have hrun : (finishedLayouts.run s).1 = .error (.recursiveType "Node") := by decide +kernel
  obtain ⟨-, hnamed, -⟩ := finishedLayouts_refuses_cycles s
  exact ⟨hrun, hnamed "Node" hrun⟩

end WireSchema
