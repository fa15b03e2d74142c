import Mathlib.Data.List.Nodup
import WireSchema.Schema.Account

/-!
# Where the accounts of an instruction stand

A place is given by indices: that of an item in the outermost list, then that
of an item in its group, and so on. The flat list has the accounts by place, in
the order of the indices, each with the names of the groups that lead to it.
Where the items of every list have different names without a dot, the qualified
name tells the place. Without that, two accounts may share one.
-/

namespace WireSchema.Schema

set_option autoImplicit false

@[elab_as_elim]
theorem AccountItem.induction {motive : AccountItem → Prop} (single : ∀ account, motive (.single account))
    (group : ∀ name items, (∀ item ∈ items, motive item) → motive (.group name items)) : ∀ item, motive item
  | .single account => single account
  | .group name items => group name items fun item _ => AccountItem.induction single group item
termination_by item => sizeOf item
decreasing_by
  have := List.sizeOf_lt_of_mem ‹_›
  simp_wf
  omega

def AccountItem.name : AccountItem → String
  | .single account => account.name
  | .group name _ => name

namespace FlatAccount

/-- The account when the outermost of its groups stands inside of the given ones. -/
def inside (groups : List String) (a : FlatAccount) : FlatAccount :=
  ⟨groups ++ a.groups, a.account⟩

/-- The names that the qualified name is made of. -/
def names (a : FlatAccount) : List String :=
  a.groups ++ [a.account.name]

@[simp] theorem inside_inside (outer inner : List String) (a : FlatAccount) :
    (a.inside inner).inside outer = a.inside (outer ++ inner) := by
  simp [inside]

@[simp] theorem names_inside (groups : List String) (a : FlatAccount) : (a.inside groups).names = groups ++ a.names :=
  List.append_assoc groups a.groups _

end FlatAccount

/-- The account at a place inside an item. A group on the way is noted before those inside of it. -/
def AccountItem.at? : AccountItem → List Nat → Option FlatAccount
  | .single account, [] => some ⟨[], account⟩
  | .group name items, i :: place => (items[i]?.bind fun item => item.at? place).map (FlatAccount.inside [name])
  | _, _ => none

def accountAt? (items : List AccountItem) : List Nat → Option FlatAccount
  | [] => none
  | i :: place => items[i]?.bind fun item => item.at? place

mutual

/-- The lists of items inside an item. -/
def AccountItem.lists : AccountItem → List (List AccountItem)
  | .single _ => []
  | .group _ items => items :: innerLists items

def innerLists : List AccountItem → List (List AccountItem)
  | [] => []
  | item :: rest => item.lists ++ innerLists rest

end

/-- The lists of items of a tree: the outermost one and that of every group. -/
def siblingLists (items : List AccountItem) : List (List AccountItem) :=
  items :: innerLists items

/-- The place of what stands one item later. -/
def laterPlace : List Nat → List Nat
  | [] => []
  | i :: place => (i + 1) :: place

mutual

def AccountItem.places : AccountItem → List (List Nat)
  | .single _ => [[]]
  | .group _ items => accountPlaces items

/-- The places of the accounts, in order. -/
def accountPlaces : List AccountItem → List (List Nat)
  | [] => []
  | item :: rest => item.places.map (0 :: ·) ++ (accountPlaces rest).map laterPlace

end

section Places

variable {item : AccountItem} {items rest : List AccountItem}

theorem at?_group (name : String) (items : List AccountItem) (place : List Nat) :
    (AccountItem.group name items).at? place = (accountAt? items place).map (FlatAccount.inside [name]) := by
  cases place <;> rfl

@[simp] theorem accountAt?_laterPlace (place : List Nat) :
    accountAt? (item :: rest) (laterPlace place) = accountAt? rest place := by
  cases place <;> rfl

theorem lt_laterPlace {p q : List Nat} (h : p < q) : laterPlace p < laterPlace q := by
  cases p <;> cases q <;> simp_all [laterPlace, List.cons_lt_cons_iff]

@[simp] theorem laterPlace_eq_nil {p : List Nat} : laterPlace p = [] ↔ p = [] := by
  cases p <;> simp [laterPlace]

@[simp] theorem laterPlace_ne_zero {p q : List Nat} : laterPlace p ≠ 0 :: q := by
  cases p <;> simp [laterPlace]

@[simp] theorem laterPlace_eq_succ {p q : List Nat} {i : Nat} : laterPlace p = (i + 1) :: q ↔ p = i :: q := by
  cases p <;> simp [laterPlace]

/-- The places are in order and complete, and the flat list has the account of each. -/
structure Locates (places : List (List Nat)) (at? : List Nat → Option FlatAccount)
    (flat : List String → List FlatAccount) : Prop where
  ordered : places.Pairwise (· < ·)
  mem : ∀ place, place ∈ places ↔ (at? place).isSome = true
  accounts : ∀ groups, (flat groups).map some = places.map fun place => (at? place).map (FlatAccount.inside groups)

theorem mem_accountPlaces_cons {place : List Nat} (hitem : ∀ p, p ∈ item.places ↔ (item.at? p).isSome = true)
    (hrest : ∀ p, p ∈ accountPlaces rest ↔ (accountAt? rest p).isSome = true) :
    place ∈ accountPlaces (item :: rest) ↔ (accountAt? (item :: rest) place).isSome = true := by
  rw [accountPlaces, List.mem_append, List.mem_map, List.mem_map]
  cases place with
  | nil => simp [hrest, accountAt?]
  | cons i p =>
    cases i with
    | zero => simp [hitem, accountAt?]
    | succ i => simp [hrest, accountAt?]

theorem locates_accountPlaces (h : ∀ item ∈ items, Locates item.places item.at? item.flatten) :
    Locates (accountPlaces items) (accountAt? items) (flattenItems · items) := by
  induction items with
  | nil =>
    refine ⟨List.Pairwise.nil, fun place => ?_, fun groups => rfl⟩
    cases place <;> simp [accountPlaces, accountAt?]
  | cons item rest ih =>
    obtain ⟨hitem, hrest⟩ := List.forall_mem_cons.mp h
    have hrest := ih hrest
    refine ⟨?_, fun place => mem_accountPlaces_cons hitem.mem hrest.mem, fun groups => ?_⟩
    · rw [accountPlaces, List.pairwise_append, List.pairwise_map, List.pairwise_map]
      refine ⟨hitem.ordered.imp fun h => List.cons_lt_cons_self.mpr h, hrest.ordered.imp lt_laterPlace, ?_⟩
      intro place hplace later hlater
      obtain ⟨p, -, rfl⟩ := List.mem_map.mp hplace
      obtain ⟨q, hq, rfl⟩ := List.mem_map.mp hlater
      cases q with
      | nil =>
        rw [hrest.mem] at hq
        cases hq
      | cons i q => exact List.cons_lt_cons_iff.mpr (.inl (Nat.succ_pos i))
    · rw [flattenItems, accountPlaces, List.map_append, List.map_append, hitem.accounts, hrest.accounts,
        List.map_map, List.map_map]
      simp only [Function.comp_def, accountAt?_laterPlace]
      rfl

theorem AccountItem.locates (item : AccountItem) : Locates item.places item.at? item.flatten := by
  induction item using AccountItem.induction with
  | single account =>
    refine ⟨List.pairwise_singleton _ _, fun place => ?_, fun groups => ?_⟩
    · cases place <;> simp [AccountItem.places, AccountItem.at?]
    · simp [AccountItem.flatten, AccountItem.places, AccountItem.at?, FlatAccount.inside]
  | group name items ih =>
    have hitems := locates_accountPlaces ih
    refine ⟨hitems.ordered, fun place => ?_, fun groups => ?_⟩
    · rw [at?_group, Option.isSome_map]
      exact hitems.mem place
    · simp only [at?_group, Option.map_map, Function.comp_def, FlatAccount.inside_inside]
      exact hitems.accounts (groups ++ [name])

end Places

section Names

variable {items : List AccountItem}

/-- Accounts whose qualified names have the same parts stand at one place. -/
def NamesTell (at? : List Nat → Option FlatAccount) : Prop :=
  ∀ p q a b, at? p = some a → at? q = some b → a.names = b.names → p = q

theorem head?_names {item : AccountItem} {place : List Nat} {a : FlatAccount} (h : item.at? place = some a) :
    a.names.head? = some item.name := by
  cases item with
  | single account =>
    cases place with
    | nil =>
      cases h
      rfl
    | cons i place => cases h
  | group name items =>
    rw [at?_group] at h
    obtain ⟨b, -, rfl⟩ := Option.map_eq_some_iff.mp h
    rw [FlatAccount.names_inside]
    rfl

theorem accountAt?_eq_some {place : List Nat} {a : FlatAccount} (h : accountAt? items place = some a) :
    ∃ i item p, place = i :: p ∧ items[i]? = some item ∧ item.at? p = some a := by
  cases place with
  | nil => cases h
  | cons i p =>
    obtain ⟨item, hitem, ha⟩ := Option.bind_eq_some_iff.mp h
    exact ⟨i, item, p, rfl, hitem, ha⟩

theorem namesTell_accountAt? (hnames : (items.map AccountItem.name).Nodup) (h : ∀ item ∈ items, NamesTell item.at?) :
    NamesTell (accountAt? items) := by
  intro place other a b ha hb hab
  obtain ⟨i, item, p, rfl, hi, hp⟩ := accountAt?_eq_some ha
  obtain ⟨j, item', q, rfl, hj, hq⟩ := accountAt?_eq_some hb
  have hname : item.name = item'.name := by
    have hhead := head?_names hp
    rw [hab, head?_names hq] at hhead
    exact (Option.some.inj hhead).symm
  have hfirst : (items.map AccountItem.name)[i]? = some item.name := by rw [List.getElem?_map, hi, Option.map_some]
  have hsecond : (items.map AccountItem.name)[j]? = some item.name := by
    rw [List.getElem?_map, hj, Option.map_some, hname]
  have hlt : i < (items.map AccountItem.name).length := (List.getElem?_eq_some_iff.mp hfirst).1
  obtain rfl : i = j := (List.getElem?_inj hlt hnames).mp (hfirst.trans hsecond.symm)
  obtain rfl := Option.some.inj (hi.symm.trans hj)
  rw [h item (List.mem_of_getElem? hi) p q a b hp hq hab]

theorem AccountItem.lists_subset {item : AccountItem} (h : item ∈ items) : item.lists ⊆ innerLists items := by
  induction items with
  | nil => cases h
  | cons first rest ih =>
    rw [innerLists]
    rcases List.mem_cons.mp h with rfl | hrest
    · exact List.subset_append_left _ _
    · exact List.Subset.trans (ih hrest) (List.subset_append_right _ _)

theorem AccountItem.namesTell (item : AccountItem)
    (h : ∀ siblings ∈ item.lists, (siblings.map AccountItem.name).Nodup) : NamesTell item.at? := by
  induction item using AccountItem.induction with
  | single account =>
    intro p q a b ha hb _
    cases p with
    | nil =>
      cases q with
      | nil => rfl
      | cons j q => cases hb
    | cons i p => cases ha
  | group name items ih =>
    rw [AccountItem.lists, List.forall_mem_cons] at h
    have hitems : NamesTell (accountAt? items) := by
      refine namesTell_accountAt? h.1 fun item hitem => ih item hitem fun siblings hsiblings => ?_
      exact h.2 siblings (AccountItem.lists_subset hitem hsiblings)
    intro p q a b ha hb hab
    rw [at?_group] at ha hb
    obtain ⟨a', ha', rfl⟩ := Option.map_eq_some_iff.mp ha
    obtain ⟨b', hb', rfl⟩ := Option.map_eq_some_iff.mp hb
    have hnames : a'.names = b'.names := by simpa using hab
    exact hitems p q a' b' ha' hb' hnames

/-- An item of one of the lists has the name. -/
def NamedIn (lists : List (List AccountItem)) (name : String) : Prop :=
  ∃ siblings ∈ lists, ∃ item ∈ siblings, item.name = name

theorem NamedIn.mono {lists more : List (List AccountItem)} {name : String} (h : NamedIn lists name)
    (hsubset : lists ⊆ more) : NamedIn more name := by
  obtain ⟨siblings, hsiblings, hitem⟩ := h
  exact ⟨siblings, hsubset hsiblings, hitem⟩

theorem namedIn_accountAt? {place : List Nat} {a : FlatAccount} (ha : accountAt? items place = some a)
    (h : ∀ item ∈ items, ∀ p, item.at? p = some a → ∀ name ∈ a.names, name = item.name ∨ NamedIn item.lists name) :
    ∀ name ∈ a.names, NamedIn (siblingLists items) name := by
  intro name hname
  obtain ⟨i, item, p, rfl, hi, hp⟩ := accountAt?_eq_some ha
  have hitem := List.mem_of_getElem? hi
  rcases h item hitem p hp name hname with rfl | hinner
  · exact ⟨items, List.mem_cons_self, item, hitem, rfl⟩
  · exact hinner.mono (List.subset_cons_of_subset _ (AccountItem.lists_subset hitem))

theorem AccountItem.namedIn (item : AccountItem) : ∀ place a, item.at? place = some a →
    ∀ name ∈ a.names, name = item.name ∨ NamedIn item.lists name := by
  induction item using AccountItem.induction with
  | single account =>
    intro place a ha name hname
    cases place with
    | nil =>
      cases ha
      exact .inl (List.mem_singleton.mp hname)
    | cons i place => cases ha
  | group groupName items ih =>
    intro place a ha name hname
    rw [at?_group] at ha
    obtain ⟨b, hb, rfl⟩ := Option.map_eq_some_iff.mp ha
    have hname : name = groupName ∨ name ∈ b.names := by simpa using hname
    rcases hname with rfl | hname
    · exact .inl rfl
    · exact .inr (namedIn_accountAt? hb (fun item hitem p => ih item hitem p b) name hname)

theorem FlatAccount.names_eq_of_qualifiedName {a b : FlatAccount} (ha : ∀ name ∈ a.names, '.' ∉ name.toList)
    (hb : ∀ name ∈ b.names, '.' ∉ name.toList) (h : a.qualifiedName = b.qualifiedName) : a.names = b.names := by
  have hsplit : ∀ c : FlatAccount, (∀ name ∈ c.names, '.' ∉ name.toList) →
      c.qualifiedName.toList.splitOn '.' = c.names.map String.toList := by
    intro c hc
    have htext : c.qualifiedName.toList = ['.'].intercalate (c.names.map String.toList) := String.toList_intercalate
    rw [htext]
    apply List.splitOn_intercalate
    · simpa using hc
    · simp [FlatAccount.names]
  have hlists : a.names.map String.toList = b.names.map String.toList := by
    rw [← hsplit a ha, ← hsplit b hb, h]
  exact List.map_injective_iff.mpr (fun _ _ h => String.toList_injective h) hlists

/-- Siblings have different names, and no name has a dot. -/
def Distinguishable (items : List AccountItem) : Prop :=
  ∀ siblings ∈ siblingLists items,
    (siblings.map AccountItem.name).Nodup ∧ ∀ item ∈ siblings, '.' ∉ item.name.toList

instance : Decidable (Distinguishable items) :=
  inferInstanceAs (Decidable (∀ siblings ∈ siblingLists items, _))

/-- Accounts with one qualified name stand at one place. -/
theorem qualifiedNames_tell (h : Distinguishable items) : ∀ p q a b, accountAt? items p = some a →
    accountAt? items q = some b → a.qualifiedName = b.qualifiedName → p = q := by
  intro p q a b ha hb hab
  have htell : NamesTell (accountAt? items) := by
    refine namesTell_accountAt? (h items List.mem_cons_self).1 fun item hitem => ?_
    refine item.namesTell fun siblings hsiblings => ?_
    exact (h siblings (List.mem_cons_of_mem _ (AccountItem.lists_subset hitem hsiblings))).1
  have hdots : ∀ place c, accountAt? items place = some c → ∀ name ∈ c.names, '.' ∉ name.toList := by
    intro place c hc name hname
    obtain ⟨siblings, hsiblings, item, hitem, rfl⟩ :=
      namedIn_accountAt? hc (fun item _ p => item.namedIn p c) name hname
    exact (h siblings hsiblings).2 item hitem
  exact htell p q a b ha hb (FlatAccount.names_eq_of_qualifiedName (hdots p a ha) (hdots q b hb) hab)

end Names

/-- The flat list has every account at its place: the places come in the order of the document, and each account
with the names of the groups around it. Qualified names tell accounts apart if the names of siblings do and none
has a dot. -/
theorem flattenItems_by_place (items : List AccountItem) :
    (∃ places : List (List Nat), places.Pairwise (· < ·)
        ∧ (∀ place, place ∈ places ↔ (accountAt? items place).isSome = true)
        ∧ (flattenItems [] items).map some = places.map (accountAt? items))
      ∧ (Distinguishable items → ((flattenItems [] items).map FlatAccount.qualifiedName).Nodup) := by
  have hlocates := locates_accountPlaces fun item (_ : item ∈ items) => item.locates
  have haccounts : (flattenItems [] items).map some = (accountPlaces items).map (accountAt? items) := by
    have hinside : FlatAccount.inside [] = id := rfl
    rw [hlocates.accounts]
    simp [hinside]
  refine ⟨⟨accountPlaces items, hlocates.ordered, hlocates.mem, haccounts⟩, fun hnames => ?_⟩
  -- Qualified names are the texts of different places, so none comes twice.
  have htexts : (((accountPlaces items).map (accountAt? items)).map (Option.map FlatAccount.qualifiedName)).Nodup := by
    rw [List.map_map]
    refine List.Nodup.map_on (fun p hp q hq heq => ?_) (hlocates.ordered.imp ?_)
    · obtain ⟨a, ha⟩ := Option.isSome_iff_exists.mp ((hlocates.mem p).mp hp)
      obtain ⟨b, hb⟩ := Option.isSome_iff_exists.mp ((hlocates.mem q).mp hq)
      rw [Function.comp_apply, Function.comp_apply, ha, hb] at heq
      have hqualified : a.qualifiedName = b.qualifiedName := Option.some.inj heq
      exact qualifiedNames_tell hnames p q a b ha hb hqualified
    · rintro p q hlt rfl
      exact List.lt_irrefl p hlt
  rw [← haccounts, List.map_map] at htexts
  apply List.Nodup.of_map some
  rwa [List.map_map]

theorem flattenItems_by_place_nested :
    let slot (name : String) : AccountItem := .single ⟨name, [], false, false, false, none, none, []⟩
    let items : List AccountItem := [slot "payer",
      .group "pool" [slot "state", .group "vaults" [slot "a", slot "b"]], slot "system_program"]
    Distinguishable items
      ∧ (flattenItems [] items).map FlatAccount.qualifiedName
        = ["payer", "pool.state", "pool.vaults.a", "pool.vaults.b", "system_program"]
      ∧ ((flattenItems [] items).map FlatAccount.qualifiedName).Nodup
      ∧ ∃ places : List (List Nat), places.Pairwise (· < ·) ∧ [1, 1, 0] ∈ places := by
  intro slot items
  have hnames : Distinguishable items := by decide +kernel
  obtain ⟨⟨places, hordered, hmem, -⟩, hnodup⟩ := flattenItems_by_place items
  exact ⟨hnames, by decide +kernel, hnodup hnames, places, hordered, (hmem [1, 1, 0]).mpr rfl⟩

/-- A name with a dot can be the qualified name of an account in a group. -/
example :
    let slot (name : String) : AccountItem := .single ⟨name, [], false, false, false, none, none, []⟩
    (flattenItems [] [slot "pool.state", .group "pool" [slot "state"]]).map FlatAccount.qualifiedName
      = ["pool.state", "pool.state"] := by decide +kernel

end WireSchema.Schema
