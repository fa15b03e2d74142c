import Mathlib.Data.List.Perm.Subperm
import WireSchema.Codec.Basic

/-!
# Entries by key

What a look-up finds is an entry. Lists of entries in strictly ascending order
of their keys are equal as soon as look-ups agree, and inserting keeps them in
order. So two sets of layouts that were built by insertion are the same set when
they hold the same layouts.
-/

namespace WireSchema

set_option autoImplicit false

namespace Keyed

variable {α : Type}

def Sorted (entries : List (String × α)) : Prop :=
  entries.Pairwise fun a b => a.1 < b.1

theorem mem_of_lookup {entries : List (String × α)} {name : String} {a : α}
    (h : entries.lookup name = some a) : (name, a) ∈ entries := by
  induction entries with
  | nil => cases h
  | cons entry rest ih =>
    obtain ⟨n, b⟩ := entry
    rw [List.lookup_cons] at h
    cases hn : name == n with
    | true =>
      simp only [hn, Option.some.injEq] at h
      rw [eq_of_beq hn, h]
      exact List.mem_cons_self
    | false =>
      simp only [hn] at h
      exact List.mem_cons_of_mem _ (ih h)

theorem lt_of_not_lt {a b : String} (h : ¬ a < b) (hne : a ≠ b) : b < a :=
  Decidable.byContradiction fun hba => hne (String.le_antisymm hba h)

theorem mem_insert {key : String} {value : α} {entry : String × α} {entries : List (String × α)}
    (h : entry ∈ insert key value entries) : entry = (key, value) ∨ entry ∈ entries := by
  induction entries with
  | nil => exact .inl (List.mem_singleton.mp h)
  | cons first rest ih =>
    obtain ⟨k, v⟩ := first
    simp only [insert] at h
    split at h
    · exact List.mem_cons.mp h
    · split at h
      · exact (List.mem_cons.mp h).imp_right (List.mem_cons_of_mem _)
      · rcases List.mem_cons.mp h with rfl | h
        · exact .inr List.mem_cons_self
        · exact (ih h).imp_right (List.mem_cons_of_mem _)

@[simp] theorem mem_keys_insert {key name : String} {value : α} {entries : List (String × α)} :
    name ∈ (insert key value entries).map Prod.fst ↔ name = key ∨ name ∈ entries.map Prod.fst := by
  induction entries with
  | nil => simp [insert]
  | cons first rest ih =>
    obtain ⟨k, v⟩ := first
    simp only [insert]
    split
    · simp
    · split
      · next heq => simp [heq]
      · rw [List.map_cons, List.map_cons, List.mem_cons, List.mem_cons, ih]
        exact or_left_comm

theorem sorted_insert (key : String) (value : α) {entries : List (String × α)} (h : Sorted entries) :
    Sorted (insert key value entries) := by
  induction entries with
  | nil => exact List.pairwise_singleton _ _
  | cons first rest ih =>
    obtain ⟨k, v⟩ := first
    obtain ⟨hfirst, hrest⟩ := List.pairwise_cons.mp h
    simp only [insert]
    split
    · next hlt =>
      refine List.pairwise_cons.mpr ⟨?_, h⟩
      intro entry hentry
      rcases List.mem_cons.mp hentry with rfl | hentry
      · exact hlt
      · exact String.lt_trans hlt (hfirst entry hentry)
    · next hlt =>
      split
      · next heq =>
        subst heq
        exact List.pairwise_cons.mpr ⟨hfirst, hrest⟩
      · next hne =>
        refine List.pairwise_cons.mpr ⟨?_, ih hrest⟩
        intro entry hentry
        rcases mem_insert hentry with rfl | hentry
        · exact lt_of_not_lt hlt hne
        · exact hfirst entry hentry

theorem ofList_eq (entries : List (String × α)) :
    ofList entries = entries.foldl (fun sorted entry => insert entry.1 entry.2 sorted) [] := rfl

@[simp] theorem mem_keys_ofList {name : String} {entries : List (String × α)} :
    name ∈ (ofList entries).map Prod.fst ↔ name ∈ entries.map Prod.fst := by
  have hfold : ∀ sorted : List (String × α),
      name ∈ (entries.foldl (fun sorted entry => insert entry.1 entry.2 sorted) sorted).map Prod.fst
        ↔ name ∈ entries.map Prod.fst ∨ name ∈ sorted.map Prod.fst := by
    induction entries with
    | nil => simp
    | cons first rest ih =>
      intro sorted
      rw [List.foldl_cons, ih, mem_keys_insert, List.map_cons, List.mem_cons]
      exact or_left_comm.trans or_assoc.symm
  rw [ofList_eq]
  exact (hfold []).trans (or_iff_left List.not_mem_nil)

theorem sorted_ofList (entries : List (String × α)) : Sorted (ofList entries) := by
  have hfold : ∀ sorted : List (String × α), Sorted sorted →
      Sorted (entries.foldl (fun sorted entry => insert entry.1 entry.2 sorted) sorted) := by
    induction entries with
    | nil => exact fun _ h => h
    | cons first rest ih => exact fun sorted h => ih _ (sorted_insert _ _ h)
  rw [ofList_eq]
  exact hfold [] List.Pairwise.nil

theorem mem_ofList {entry : String × α} {entries : List (String × α)} (h : entry ∈ ofList entries) :
    entry ∈ entries := by
  suffices hfold : ∀ sorted : List (String × α),
      entry ∈ entries.foldl (fun sorted entry => insert entry.1 entry.2 sorted) sorted →
        entry ∈ entries ∨ entry ∈ sorted from (hfold [] (ofList_eq entries ▸ h)).resolve_right List.not_mem_nil
  clear h
  induction entries with
  | nil => exact fun _ h => .inr h
  | cons first rest ih =>
    intro sorted h
    rcases ih _ h with hrest | hinsert
    · exact .inl (List.mem_cons_of_mem _ hrest)
    · exact (mem_insert hinsert).imp_left fun heq => List.mem_cons.mpr (.inl heq)

theorem lookup_eq_none {key : String} {entries : List (String × α)} (h : ∀ entry ∈ entries, key < entry.1) :
    entries.lookup key = none := by
  rw [List.lookup_eq_none_iff]
  intro entry hentry
  rw [bne_iff_ne]
  intro heq
  have hlt := h entry hentry
  rw [← heq] at hlt
  exact String.lt_irrefl key hlt

theorem lookup_of_notMem {key : String} {entries : List (String × α)} (h : key ∉ entries.map Prod.fst) :
    entries.lookup key = none := by
  cases hlookup : entries.lookup key with
  | none => rfl
  | some value => exact absurd (List.mem_map_of_mem (f := Prod.fst) (mem_of_lookup hlookup)) h

/-- Where no key is repeated, sorting does not change what is found. -/
theorem lookup_ofList {key : String} {entries : List (String × α)} (h : (entries.map Prod.fst).Nodup) :
    (ofList entries).lookup key = entries.lookup key := by
  have hfold : ∀ sorted : List (String × α),
      (entries.foldl (fun sorted entry => insert entry.1 entry.2 sorted) sorted).lookup key
        = (entries.lookup key).or (sorted.lookup key) := by
    induction entries with
    | nil => exact fun _ => rfl
    | cons first rest ih =>
      intro sorted
      obtain ⟨hfirst, hrest⟩ := List.nodup_cons.mp h
      rw [List.foldl_cons, ih hrest]
      by_cases hkey : key = first.1
      · rw [hkey, lookup_of_notMem hfirst, lookup_insert_self, List.lookup_cons_self]
        rfl
      · have hne : (key == first.1) = false := by simpa using hkey
        rw [lookup_insert_of_ne hkey, List.lookup_cons, hne]
  rw [ofList_eq, hfold, List.lookup_nil, Option.or_none]

theorem Sorted.lookup_eq_none_of_lt {key k : String} {v : α} {rest : List (String × α)}
    (hs : Sorted ((k, v) :: rest)) (h : key < k) : ((k, v) :: rest).lookup key = none := by
  refine lookup_eq_none fun entry hentry => ?_
  rcases List.mem_cons.mp hentry with rfl | hentry
  · exact h
  · exact String.lt_trans h ((List.pairwise_cons.mp hs).1 entry hentry)

theorem Sorted.ext {xs ys : List (String × α)} (hx : Sorted xs) (hy : Sorted ys)
    (h : ∀ key, xs.lookup key = ys.lookup key) : xs = ys := by
  induction xs generalizing ys with
  | nil =>
    cases ys with
    | nil => rfl
    | cons b ys => cases (h b.1).trans List.lookup_cons_self
  | cons a xs ih =>
    obtain ⟨k, v⟩ := a
    cases ys with
    | nil => cases List.lookup_cons_self.symm.trans (h k)
    | cons b ys =>
      obtain ⟨l, w⟩ := b
      have hkl : k = l := by
        by_cases hlt : k < l
        · cases List.lookup_cons_self.symm.trans ((h k).trans (hy.lookup_eq_none_of_lt hlt))
        · by_cases heq : k = l
          · exact heq
          · have hlt := lt_of_not_lt hlt heq
            cases List.lookup_cons_self.symm.trans ((h l).symm.trans (hx.lookup_eq_none_of_lt hlt))
      subst hkl
      obtain ⟨hk, hxs⟩ := List.pairwise_cons.mp hx
      obtain ⟨hl, hys⟩ := List.pairwise_cons.mp hy
      have hvw : v = w := by simpa using h k
      have htails : xs = ys := by
        apply ih hxs hys
        intro key
        by_cases hkey : key = k
        · rw [hkey, lookup_eq_none hk, lookup_eq_none hl]
        · have hne : (key == k) = false := by simpa using hkey
          simpa [List.lookup_cons, hne] using h key
      rw [hvw, htails]

end Keyed

namespace LayoutSet

def Sorted (set : LayoutSet) : Prop := Keyed.Sorted set.entries

theorem Sorted.ext {set other : LayoutSet} (hset : set.Sorted) (hother : other.Sorted)
    (h : ∀ key, set.get? key = other.get? key) : set = other := by
  cases set
  cases other
  exact congrArg LayoutSet.mk (Keyed.Sorted.ext hset hother h)

theorem mem_keys_of_get? {set : LayoutSet} {key : String} {layout : Layout} (h : set.get? key = some layout) :
    key ∈ set.keys :=
  List.mem_map_of_mem (Keyed.mem_of_lookup h)

/-- Keys of a set that are all different are no more than its layouts. -/
theorem length_le_of_nodup {set : LayoutSet} {keys : List String} (hnodup : keys.Nodup)
    (hkeys : keys ⊆ set.keys) : keys.length ≤ set.length := by
  have hle := (List.subperm_of_subset hnodup hkeys).length_le
  rwa [LayoutSet.keys, List.length_map] at hle

end LayoutSet

end WireSchema
