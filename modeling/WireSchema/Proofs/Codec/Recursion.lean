import WireSchema.Codec.Recursion
import WireSchema.Proofs.Entries
import WireSchema.Proofs.Step

/-!
# No endless descent

A key is done with when the search has come to an end along everything that its
layout contains directly. So if the search from all keys ends, to go from a
layout to one that it contains directly is a step that cannot be repeated for
ever. The other direction, that a key which the search reports does contain
itself, is in `Proofs.Codec.Cycles`.
-/

namespace WireSchema.LayoutSet

set_option autoImplicit false

variable {set : LayoutSet} {key : String} {keys done done' : List String}

/-- Values of `key` hold values of `inner`, with nothing in between that may be absent. -/
def DirectlyIn (set : LayoutSet) (inner key : String) : Prop := inner ∈ set.directKeys key

/-- No descent from one of these keys is endless. -/
def Grounded (set : LayoutSet) (keys : List String) : Prop := ∀ key ∈ keys, Acc set.DirectlyIn key

/-- A search from some keys takes what is done from `done` to `done'`. -/
structure Clears (set : LayoutSet) (keys done done' : List String) : Prop where
  grows : done ⊆ done'
  reaches : keys ⊆ done'
  grounds : set.Grounded done → set.Grounded done'

theorem clears_searchAll {search : List String → String → Search}
    (h : ∀ key done done', search done key = .ok done' → set.Clears [key] done done')
    (hrun : searchAll search done keys = .ok done') : set.Clears keys done done' := by
  induction keys generalizing done with
  | nil =>
    cases hrun
    exact ⟨List.Subset.refl _, List.nil_subset _, id⟩
  | cons key rest ih =>
    obtain ⟨middle, hkey, hrest⟩ := Step.ok_of_bind hrun
    have hfirst := h key done middle hkey
    have hothers := ih hrest
    have hmem : key ∈ done' := hothers.grows (hfirst.reaches List.mem_cons_self)
    exact ⟨List.Subset.trans hfirst.grows hothers.grows, List.cons_subset.mpr ⟨hmem, hothers.reaches⟩,
      fun hdone => hothers.grounds (hfirst.grounds hdone)⟩

/-- The induction is on the fuel. A key is put to what is done after all that it contains directly. -/
theorem clears_search (fuel : Nat) (path : List String) :
    ∀ key done done', set.search fuel path done key = .ok done' → set.Clears [key] done done' := by
  induction fuel generalizing path with
  | zero =>
    intro key done done' h
    cases h
  | succ fuel ih =>
    intro key done done' h
    rw [search] at h
    split at h
    · next hdone =>
      cases h
      exact ⟨List.Subset.refl _, by simpa using hdone, id⟩
    · split at h
      · cases h
      · obtain ⟨inside, hinside, h⟩ := Step.ok_of_bind h
        cases h
        have hclears := clears_searchAll (ih (key :: path)) hinside
        refine ⟨List.subset_cons_of_subset _ hclears.grows, by simp, fun hdone => ?_⟩
        have hground := hclears.grounds hdone
        have hkey : Acc set.DirectlyIn key := by
          constructor
          intro inner hinner
          exact hground inner (hclears.reaches hinner)
        exact List.forall_mem_cons.mpr ⟨hkey, hground⟩

theorem directKeys_of_get?_eq_none (h : set.get? key = none) : set.directKeys key = [] := by
  rw [directKeys, h]

/-- A search that reports no key leaves no endless descent. -/
theorem wellFounded_directlyIn (h : set.selfContaining? = none) : WellFounded set.DirectlyIn := by
  unfold selfContaining? at h
  split at h
  · next done hrun =>
    have hclears := clears_searchAll (clears_search _ []) hrun
    have hground : set.Grounded done := hclears.grounds fun _ hmem => absurd hmem List.not_mem_nil
    constructor
    intro key
    cases hkey : set.get? key with
    | some layout => exact hground key (hclears.reaches (mem_keys_of_get? hkey))
    | none =>
      constructor
      intro inner hinner
      rw [DirectlyIn, directKeys_of_get?_eq_none hkey] at hinner
      cases hinner
  · cases h

end WireSchema.LayoutSet
