import Mathlib.Logic.Relation
import Mathlib.Order.WellFounded
import WireSchema.Codec.Size
import WireSchema.Proofs.Codec.Recursion

/-!
# How far a descent goes

Where no type contains itself directly, a descent through the layouts passes
each of them once at most. So the sizes, which follow keys as often as there are
layouts, get to the end of every descent, and the least size of a key is what
its layout makes of the least sizes of the keys in it.
-/

namespace WireSchema

set_option autoImplicit false

namespace LayoutSet

variable {set : LayoutSet} {key : String} {n fuel : Nat}

/-- A descent from a key takes fewer than `n` steps. -/
inductive Shallow (set : LayoutSet) : Nat → String → Prop
  | intro {n : Nat} {key : String} : (∀ inner ∈ set.directKeys key, Shallow set n inner) → Shallow set (n + 1) key

/-- The path holds the keys that were passed. None of them comes again, so they are at most all keys. -/
theorem shallow_below (hset : WellFounded set.DirectlyIn) {path : List String} (hnodup : path.Nodup)
    (hkeys : path ⊆ set.keys) (habove : ∀ outer ∈ path, Relation.TransGen set.DirectlyIn key outer)
    (hfuel : set.length < fuel + path.length) : set.Shallow fuel key := by
  induction fuel generalizing key path with
  | zero =>
    have hle := length_le_of_nodup hnodup hkeys
    omega
  | succ fuel ih =>
    refine .intro fun inner hinner => ?_
    cases hkey : set.get? key with
    | none =>
      rw [directKeys_of_get?_eq_none hkey] at hinner
      cases hinner
    | some layout =>
      have hnew : key ∉ path := fun hmem => hset.transGen.irrefl.irrefl key (habove key hmem)
      have hinside : set.DirectlyIn inner key := hinner
      have hnodup' : (key :: path).Nodup := List.nodup_cons.mpr ⟨hnew, hnodup⟩
      apply ih hnodup'
      · exact List.cons_subset.mpr ⟨mem_keys_of_get? hkey, hkeys⟩
      · intro outer houter
        rcases List.mem_cons.mp houter with rfl | houter
        · exact .single hinside
        · exact .head hinside (habove outer houter)
      · rw [List.length_cons]
        omega

theorem shallow (hset : WellFounded set.DirectlyIn) (key : String) : set.Shallow (set.length + 1) key :=
  shallow_below hset .nil (List.nil_subset _) (fun _ h => nomatch h) (Nat.lt_succ_self _)

end LayoutSet

section Congr

variable {f g : String → Nat}

theorem Codec.minSize_congr {codec : Codec} (h : ∀ key, codec.directKey? = some key → f key = g key) :
    codec.minSize f = codec.minSize g := by
  induction codec with
  | defined key => exact h key rfl
  | array inner length ih => rw [Codec.minSize, Codec.minSize, ih h]
  | _ => rfl

theorem minSize_fields_congr {fields : List FieldCodec} (h : ∀ key ∈ directKeys fields, f key = g key)
    (before : Nat) :
    fields.foldl (fun total field => saturated (total + field.codec.minSize f)) before
      = fields.foldl (fun total field => saturated (total + field.codec.minSize g)) before := by
  induction fields generalizing before with
  | nil => rfl
  | cons field rest ih =>
    have hfield : field.codec.minSize f = field.codec.minSize g :=
      Codec.minSize_congr fun key hkey => h key (List.mem_filterMap.mpr ⟨field, List.mem_cons_self, hkey⟩)
    have hrest : ∀ key ∈ directKeys rest, f key = g key := by
      intro key hkey
      obtain ⟨other, hother, hkey⟩ := List.mem_filterMap.mp hkey
      exact h key (List.mem_filterMap.mpr ⟨other, List.mem_cons_of_mem _ hother, hkey⟩)
    rw [List.foldl_cons, List.foldl_cons, hfield, ih hrest]

theorem Layout.minSize_congr {layout : Layout} (h : ∀ key ∈ layout.directKeys, f key = g key) :
    layout.minSize f = layout.minSize g := by
  cases layout with
  | struct fields => exact minSize_fields_congr h 0
  | aliasOf codec => exact Codec.minSize_congr fun key hkey => h key (Option.mem_toList.mpr hkey)
  | _ => rfl

end Congr

namespace LayoutSet

variable {set : LayoutSet} {key : String} {n fuel : Nat}

theorem directKeys_of_get? {layout : Layout} (h : set.get? key = some layout) :
    set.directKeys key = layout.directKeys := by
  rw [directKeys, h]

/-- What goes by the keys inside alone does not change when more steps are allowed than the descent takes. -/
theorem Shallow.eq_of_le {α : Type} {f : Nat → String → α}
    (hstep : ∀ key n m, (∀ inner ∈ set.directKeys key, f n inner = f m inner) → f (n + 1) key = f (m + 1) key)
    (h : set.Shallow n key) (hfuel : n ≤ fuel) : f fuel key = f n key := by
  induction h generalizing fuel with
  | @intro n key _ ih =>
    obtain ⟨fuel, rfl⟩ := Nat.exists_eq_add_of_le' (Nat.le_trans (Nat.le_add_left 1 n) hfuel)
    exact hstep key fuel n fun inner hinner => ih inner hinner (Nat.le_of_succ_le_succ hfuel)

theorem Shallow.keyMinSize_eq (h : set.Shallow n key) (hfuel : n ≤ fuel) :
    set.keyMinSize fuel key = set.keyMinSize n key := by
  refine h.eq_of_le (fun key n m hinside => ?_) hfuel
  rw [keyMinSize, keyMinSize]
  cases hkey : set.get? key with
  | none => rfl
  | some layout =>
    refine Layout.minSize_congr fun inner hinner => hinside inner ?_
    rwa [directKeys_of_get? hkey]

/-- The least size of a key, by the least sizes of the keys in its layout. -/
theorem minSize_defined (hset : WellFounded set.DirectlyIn) (key : String) :
    set.minSize (.defined key) = match set.get? key with
      | some layout => layout.minSize (set.keyMinSize (set.length + 1))
      | none => 1 :=
  ((shallow hset key).keyMinSize_eq (Nat.le_succ _)).symm

end LayoutSet

end WireSchema
