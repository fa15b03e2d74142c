/-!
# Lists of entries sorted by key

A finite map as a list of pairs in ascending order of its keys, each key once.
`insert` keeps that form, and of two entries put under one key the later stays.
Keys are ordered by code point, which is also the order of their bytes.
-/

namespace WireSchema.Keyed

set_option autoImplicit false

variable {α : Type}

/-- Put an entry at its place, in the place of an older one with the same key. -/
def insert (key : String) (value : α) : List (String × α) → List (String × α)
  | [] => [(key, value)]
  | (k, v) :: rest =>
    if key < k then (key, value) :: (k, v) :: rest
    else if key = k then (key, value) :: rest
    else (k, v) :: insert key value rest

/-- The entries of a list in sorted form; of entries with one key the last counts. -/
def ofList (entries : List (String × α)) : List (String × α) :=
  entries.foldl (fun sorted (key, value) => insert key value sorted) []

@[simp] theorem lookup_insert_self (key : String) (value : α) (entries : List (String × α)) :
    (insert key value entries).lookup key = some value := by
  induction entries with
  | nil => simp [insert]
  | cons entry rest ih =>
    obtain ⟨k, v⟩ := entry
    simp only [insert]
    split
    · simp
    · split
      · simp
      · next hne =>
        have : (key == k) = false := by simpa using hne
        simp [List.lookup_cons, this, ih]

theorem lookup_insert_of_ne {key other : String} (h : other ≠ key) (value : α)
    (entries : List (String × α)) :
    (insert key value entries).lookup other = entries.lookup other := by
  have ho : (other == key) = false := by simpa using h
  induction entries with
  | nil => simp [insert, List.lookup_cons, ho]
  | cons entry rest ih =>
    obtain ⟨k, v⟩ := entry
    simp only [insert]
    split
    · simp [List.lookup_cons, ho]
    · split
      · next heq =>
        subst heq
        simp [List.lookup_cons, ho]
      · simp [List.lookup_cons, ih]

end WireSchema.Keyed
