import WireSchema.Codec.Decoder
import WireSchema.Proofs.Codec.Normal
import WireSchema.Proofs.Entries

/-!
# Following aliases

The encoder follows all aliases at once and bounds them by the number of
layouts, the decoder follows one at a time and counts levels. Both come to the
same target. A chain of aliases that ends never comes to a key twice, so the
bound of the encoder never cuts one short.
-/

namespace WireSchema

set_option autoImplicit false

open Schema

def Target.codec : Target → Codec
  | .plain codec => codec
  | .layout key _ => .defined key
  | .missing key => .defined key

namespace LayoutSet

variable {set : LayoutSet}

theorem readAt_targetWithin (fuel levels : Nat) (codec : Codec) :
    set.readAt (levels + set.aliasStepsWithin fuel codec) codec
      = set.readAt levels (set.targetWithin fuel codec).codec := by
  induction fuel generalizing codec with
  | zero =>
    cases codec with
    | defined key =>
      rcases hkey : set.get? key with _ | _ | _ <;>
        simp [targetWithin, aliasStepsWithin, hkey, Target.codec]
    | _ => rfl
  | succ fuel ih =>
    cases codec with
    | defined key =>
      rcases hkey : set.get? key with _ | _ | _ | _ | inner
      case some.aliasOf =>
        simp only [targetWithin, aliasStepsWithin, hkey]
        rw [← ih inner, ← Nat.add_assoc, readAt, hkey]
        rfl
      all_goals simp [targetWithin, aliasStepsWithin, hkey, Target.codec]
    | _ => rfl

theorem readAt_target (levels : Nat) (codec : Codec) :
    set.readAt (levels + set.aliasSteps codec) codec = set.readAt levels (set.target codec).codec :=
  readAt_targetWithin _ _ _

theorem readAt_le_aliasStepsWithin (fuel : Nat) {levels : Nat} {codec : Codec}
    (h : levels ≤ set.aliasStepsWithin fuel codec) :
    set.readAt levels codec = throw (.depthLimit maxDepth) := by
  induction fuel generalizing levels codec with
  | zero =>
    rw [aliasStepsWithin, Nat.le_zero] at h
    · rw [h]
      rfl
    · simp
  | succ fuel ih =>
    cases levels with
    | zero => rfl
    | succ levels =>
      cases codec with
      | defined key =>
        rcases hkey : set.get? key with _ | _ | _ | _ | inner
        all_goals simp only [aliasStepsWithin, hkey] at h
        any_goals omega
        rw [readAt, hkey]
        exact ih (by omega)
      | _ => simp [aliasStepsWithin] at h

theorem readAt_le_aliasSteps {levels : Nat} {codec : Codec} (h : levels ≤ set.aliasSteps codec) :
    set.readAt levels codec = throw (.depthLimit maxDepth) :=
  readAt_le_aliasStepsWithin _ h

theorem get?_of_targetWithin {fuel : Nat} {codec : Codec} {key : String} {layout : Layout}
    (h : set.targetWithin fuel codec = .layout key layout) : set.get? key = some layout := by
  induction fuel generalizing codec with
  | zero =>
    cases codec with
    | defined other => rcases hkey : set.get? other with _ | _ | _ | _ | inner <;> simp_all [targetWithin]
    | _ => cases h
  | succ fuel ih =>
    cases codec with
    | defined other =>
      rcases hkey : set.get? other with _ | _ | _ | _ | inner
      case some.aliasOf => exact ih (by simpa [targetWithin, hkey] using h)
      all_goals simp_all [targetWithin]
    | _ => cases h

theorem get?_of_target {codec : Codec} {key : String} {layout : Layout}
    (h : set.target codec = .layout key layout) : set.get? key = some layout :=
  get?_of_targetWithin h

/-- Aliases under these keys lead from the codec to the target, where they end. -/
inductive AliasChain (set : LayoutSet) : List String → Codec → Target → Prop
  | plain {codec : Codec} : (∀ key, codec ≠ .defined key) → AliasChain set [] codec (.plain codec)
  | layout {key : String} {layout : Layout} : set.get? key = some layout →
      (∀ inner, layout ≠ .aliasOf inner) → AliasChain set [] (.defined key) (.layout key layout)
  | step {key : String} {inner : Codec} {keys : List String} {t : Target} :
      set.get? key = some (.aliasOf inner) → AliasChain set keys inner t →
      AliasChain set (key :: keys) (.defined key) t

namespace AliasChain

variable {keys keys' : List String} {codec : Codec} {t t' : Target}

theorem targetWithin (h : AliasChain set keys codec t) {fuel : Nat} (hfuel : keys.length ≤ fuel) :
    set.targetWithin fuel codec = t := by
  induction h generalizing fuel with
  | @plain codec hplain =>
    cases codec with
    | defined key => exact absurd rfl (hplain key)
    | _ => cases fuel <;> rfl
  | @layout key layout hkey hlayout =>
    cases layout with
    | aliasOf inner => exact absurd rfl (hlayout inner)
    | _ => cases fuel <;> simp [LayoutSet.targetWithin, hkey]
  | step hkey _ ih =>
    obtain ⟨fuel, rfl⟩ := Nat.exists_eq_add_of_le' (Nat.le_trans (Nat.le_add_left 1 _) hfuel)
    rw [LayoutSet.targetWithin, hkey]
    exact ih (Nat.le_of_succ_le_succ hfuel)

theorem unique (h : AliasChain set keys codec t) (h' : AliasChain set keys' codec t') : keys = keys' := by
  induction h generalizing keys' with
  | plain hplain =>
    cases h' with
    | plain _ => rfl
    | layout _ _ => exact absurd rfl (hplain _)
    | step _ _ => exact absurd rfl (hplain _)
  | layout hkey hlayout =>
    cases h' with
    | plain hplain => exact absurd rfl (hplain _)
    | layout _ _ => rfl
    | step hkey' _ =>
      rw [hkey] at hkey'
      cases hkey'
      exact absurd rfl (hlayout _)
  | step hkey _ ih =>
    cases h' with
    | plain hplain => exact absurd rfl (hplain _)
    | layout hkey' hlayout =>
      rw [hkey] at hkey'
      cases hkey'
      exact absurd rfl (hlayout _)
    | step hkey' hchain =>
      rw [hkey] at hkey'
      cases hkey'
      rw [ih hchain]

theorem of_mem (h : AliasChain set keys codec t) {key : String} (hkey : key ∈ keys) :
    ∃ front rest, keys = front ++ key :: rest ∧ AliasChain set (key :: rest) (.defined key) t := by
  induction h with
  | plain _ => cases hkey
  | layout _ _ => cases hkey
  | @step first inner keys t hfirst hchain ih =>
    rcases List.mem_cons.mp hkey with rfl | hkey
    · exact ⟨[], keys, rfl, .step hfirst hchain⟩
    · obtain ⟨front, rest, rfl, htail⟩ := ih hkey
      exact ⟨first :: front, rest, rfl, htail⟩

/-- A key that came again would start a chain longer than its own. -/
theorem nodup (h : AliasChain set keys codec t) : keys.Nodup := by
  induction h with
  | plain _ => exact .nil
  | layout _ _ => exact .nil
  | @step key inner keys t hkey hchain ih =>
    refine List.nodup_cons.mpr ⟨fun hmem => ?_, ih⟩
    obtain ⟨front, rest, hkeys, htail⟩ := hchain.of_mem hmem
    have hsame := (AliasChain.step hkey hchain).unique htail
    have hlength := congrArg List.length hsame
    rw [hkeys] at hlength
    simp only [List.length_cons, List.length_append] at hlength
    omega

theorem subset_keys (h : AliasChain set keys codec t) : keys ⊆ set.keys := by
  induction h with
  | plain _ => exact List.nil_subset _
  | layout _ _ => exact List.nil_subset _
  | step hkey _ ih => exact List.cons_subset.mpr ⟨List.mem_map_of_mem (Keyed.mem_of_lookup hkey), ih⟩

theorem length_le (h : AliasChain set keys codec t) : keys.length ≤ set.length :=
  length_le_of_nodup h.nodup h.subset_keys

theorem target (h : AliasChain set keys codec t) : set.target codec = t :=
  h.targetWithin (Nat.le_succ_of_le h.length_le)

end AliasChain

end LayoutSet

end WireSchema
