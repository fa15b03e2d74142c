import Mathlib.Algebra.Order.BigOperators.Group.Finset
import WireSchema.Proofs.Derivation.Registry
import WireSchema.Proofs.Derivation.Instantiate

/-!
# What is open at a time

The counter of a definition says how many of its layouts are being derived, and
that is checked against the limit before one more is started. In a balanced
state the counters agree with the keys that are under way; every step of a
derivation leads from a balanced state to one. As there are only so many
definitions, there are only so many layouts that can be open together.

Nothing is said here about which steps are taken.
-/

namespace WireSchema

set_option autoImplicit false

open Schema

namespace DerivationState

/-- The keys under which layouts of a definition are being derived. -/
def openKeys (s : DerivationState) (name : String) : List String :=
  (s.underWay.filter (·.1 = name)).map Prod.snd

@[simp] theorem mem_openKeys {s : DerivationState} {name key : String} :
    key ∈ s.openKeys name ↔ (name, key) ∈ s.underWay := by
  simp [openKeys]

/-- The counters agree with what is under way and are within the limit; keys are under way once, each as
the key of an instance. -/
structure Balanced (registry : Registry) (s : DerivationState) : Prop where
  counted : ∀ name, s.expansions name = (s.openKeys name).length
  limited : ∀ name, s.expansions name ≤ maxExpansions
  distinct : (s.underWay.map Prod.snd).Nodup
  named : ∀ name key, (name, key) ∈ s.underWay → ∃ d labels, registry.get? name = some d
    ∧ labels.length = d.params.length ∧ key = instanceKey name labels

theorem expansions_setExpansions (s : DerivationState) (name other : String) (n : Nat) :
    (s.setExpansions name n).expansions other = if other = name then n else s.expansions other := by
  unfold expansions setExpansions
  split
  · next heq => simp [heq]
  · next hne => rw [Keyed.lookup_insert_of_ne hne]

theorem expansions_start (s : DerivationState) (name key other : String) :
    (s.start name key).expansions other
      = if other = name then s.expansions name + 1 else s.expansions other :=
  expansions_setExpansions s name other _

theorem expansions_finish (s : DerivationState) (name key other : String) :
    (s.finish name key).expansions other
      = if other = name then s.expansions name - 1 else s.expansions other :=
  expansions_setExpansions s name other _

theorem length_openKeys_start (s : DerivationState) (name key other : String) :
    ((s.start name key).openKeys other).length
      = if other = name then (s.openKeys name).length + 1 else (s.openKeys other).length := by
  unfold openKeys
  split
  · next heq => simp [start, heq]
  · next hne => simp [start, Ne.symm hne]

section Steps

variable {registry : Registry} {s t : DerivationState} {d : TypeDef} {labels : List String} {key : String}

theorem balanced_of_closed {s : DerivationState} (hopen : s.underWay = []) (hcount : ∀ name, s.expansions name = 0) :
    s.Balanced registry := by
  constructor
  · intro name
    rw [hcount, openKeys, hopen]
    rfl
  · intro name
    rw [hcount]
    exact Nat.zero_le _
  · rw [hopen]
    exact List.nodup_nil
  · intro name key h
    rw [hopen] at h
    cases h

theorem Balanced.expansions_eq_zero (h : s.Balanced registry) (hopen : s.underWay = []) (name : String) :
    s.expansions name = 0 := by
  rw [h.counted, openKeys, hopen]
  rfl

theorem Balanced.store (h : s.Balanced registry) (key : String) (layout : Layout) :
    (s.store key layout).Balanced registry :=
  ⟨h.counted, h.limited, h.distinct, h.named⟩

theorem Balanced.start (h : s.Balanced registry) (hd : registry.get? d.name = some d)
    (hlabels : labels.length = d.params.length) (hnew : ¬ s.isKnown (instanceKey d.name labels))
    (hroom : s.expansions d.name < maxExpansions) :
    (s.start d.name (instanceKey d.name labels)).Balanced registry := by
  constructor
  · intro name
    rw [expansions_start, length_openKeys_start, h.counted, h.counted]
  · intro name
    rw [expansions_start]
    split
    · exact hroom
    · exact h.limited name
  · refine List.nodup_cons.mpr ⟨fun hmem => hnew ?_, h.distinct⟩
    obtain ⟨⟨name, key⟩, hentry, heq⟩ := List.mem_map.mp hmem
    cases heq
    exact isKnown_iff.mpr (.inr ⟨name, hentry⟩)
  · intro name key hentry
    rcases List.mem_cons.mp hentry with heq | hentry
    · cases heq
      exact ⟨d, labels, hd, hlabels, rfl⟩
    · exact h.named name key hentry

theorem underWay_finish_start {name : String} (h : t.underWay = (s.start name key).underWay) :
    (t.finish name key).underWay = s.underWay := by
  simp [h]

/-- A step back to what was under way before the layout was started. -/
theorem Balanced.finish {name : String} (h : t.Balanced registry)
    (hopen : t.underWay = (s.start name key).underWay) : (t.finish name key).Balanced registry := by
  have hback := underWay_finish_start hopen
  have hsub : ∀ entry, entry ∈ s.underWay → entry ∈ t.underWay := fun entry hentry => by
    rw [hopen]
    exact List.mem_cons_of_mem _ hentry
  constructor
  · intro other
    have hcount := h.counted other
    rw [openKeys, hopen] at hcount
    replace hcount := hcount.trans (length_openKeys_start s name key other)
    rw [expansions_finish, openKeys, hback]
    split
    · next heq =>
      subst heq
      rw [if_pos rfl] at hcount
      rw [hcount, Nat.add_sub_cancel]
      rfl
    · next hne =>
      rw [if_neg hne] at hcount
      exact hcount
  · intro other
    rw [expansions_finish]
    split
    · exact (Nat.sub_le _ _).trans (h.limited name)
    · exact h.limited other
  · have hdistinct := h.distinct
    rw [hopen] at hdistinct
    rw [hback]
    exact (List.nodup_cons.mp hdistinct).2
  · intro other key' hentry
    rw [hback] at hentry
    exact h.named other key' (hsub _ hentry)

end Steps

section Bounds

variable {registry : Registry} {s : DerivationState}

theorem Balanced.nodup_openKeys (h : s.Balanced registry) (name : String) : (s.openKeys name).Nodup :=
  h.distinct.sublist (List.filter_sublist.map Prod.snd)

/-- A definition without generics has one key only. -/
theorem Balanced.expansions_le_one (h : s.Balanced registry) {name : String} {d : TypeDef}
    (hd : registry.get? name = some d) (hparams : d.params = []) : s.expansions name ≤ 1 := by
  have hkeys : ∀ key ∈ s.openKeys name, key = name := by
    intro key hkey
    obtain ⟨e, labels, he, hlabels, rfl⟩ := h.named name key (mem_openKeys.mp hkey)
    rw [hd] at he
    cases he
    rw [hparams] at hlabels
    rw [List.length_eq_zero_iff.mp hlabels]
    rfl
  have hdistinct := h.nodup_openKeys name
  rw [h.counted]
  by_contra hlt
  rw [List.eq_replicate_of_mem hkeys, List.nodup_replicate] at hdistinct
  exact hlt hdistinct

theorem Balanced.length_underWay_le (h : s.Balanced registry) :
    s.underWay.length ≤ maxExpansions * registry.defs.length := by
  have hnodup : s.underWay.Nodup := List.Nodup.of_map _ h.distinct
  have hmaps : ∀ entry ∈ s.underWay.toFinset, entry.1 ∈ (registry.defs.map TypeDef.name).toFinset := by
    intro entry hentry
    obtain ⟨d, -, hd, -⟩ := h.named entry.1 entry.2 (List.mem_toFinset.mp hentry)
    rw [← Registry.name_of_get? hd]
    exact List.mem_toFinset.mpr (List.mem_map_of_mem (List.mem_of_find?_eq_some hd))
  have heach : ∀ name ∈ (registry.defs.map TypeDef.name).toFinset,
      (s.underWay.toFinset.filter (·.1 = name)).card ≤ maxExpansions := by
    intro name _
    calc (s.underWay.toFinset.filter (·.1 = name)).card
      _ = (s.underWay.filter (·.1 = name)).toFinset.card := by rw [List.toFinset_filter]; simp
      _ ≤ (s.underWay.filter (·.1 = name)).length := List.toFinset_card_le _
      _ = s.expansions name := by rw [h.counted, openKeys, List.length_map]
      _ ≤ maxExpansions := h.limited name
  calc s.underWay.length
    _ = s.underWay.toFinset.card := (List.toFinset_card_of_nodup hnodup).symm
    _ ≤ maxExpansions * (registry.defs.map TypeDef.name).toFinset.card :=
      Finset.card_le_mul_card_image_of_maps_to hmaps _ heach
    _ ≤ maxExpansions * registry.defs.length := by
      refine Nat.mul_le_mul_left _ ((List.toFinset_card_le _).trans ?_)
      rw [List.length_map]

end Bounds

end DerivationState

end WireSchema
