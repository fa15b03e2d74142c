import WireSchema.Proofs.Schema.Places

/-!
# Following a path

A path leads from the document to a place, step by step, or it leads nowhere.
The places of a walk are the places to which a path leads, each under that path
and each once. In which order the walk comes to them is not looked at here.
-/

namespace WireSchema.Schema

set_option autoImplicit false

/-- The place behind a key. -/
def followKey (key : String) (follow : Path → Option (Option Ty)) : Path → Option (Option Ty)
  | .key k :: rest => if k = key then follow rest else none
  | _ => none

/-- The place behind a key and the index of an item. -/
def followItem {α : Type} (key : String) (items : List α) (follow : α → Path → Option (Option Ty)) :
    Path → Option (Option Ty)
  | .key k :: .index i :: rest => if k = key then items[i]?.bind fun item => follow item rest else none
  | _ => none

/-- The place that is reached from a place with a type or with `null`. -/
def followSlot : Path → Option Ty → Option (Option Ty)
  | [], slot => some slot
  | .key key :: rest, some (.option tag inner) => if key = tag.key then followSlot rest inner else none
  | .key key :: rest, some (.vec inner) => if key = "vec" then followSlot rest inner else none
  | .key key :: rest, some (.array inner _) => if key = "array" then followSlot rest inner else none
  | .key key :: .index i :: rest, some (.defined _ args) =>
    if key = "generics" then
      args[i]?.bind fun arg => arg.type?.bind fun ty => followSlot rest (some ty)
    else none
  | _, _ => none

def Ty.follow (ty : Ty) (path : Path) : Option (Option Ty) :=
  followSlot path (some ty)

def Fields.follow : Fields → Path → Option (Option Ty)
  | .named fields => followItem "fields" fields fun f => f.ty.follow
  | .tuple types => followItem "fields" types Ty.follow

def Variant.follow (v : Variant) (path : Path) : Option (Option Ty) :=
  v.fields.bind fun fields => fields.follow path

def Body.follow : Body → Path → Option (Option Ty)
  | .struct fields => fun path => fields.bind fun fields => fields.follow path
  | .enum variants => followItem "variants" variants Variant.follow
  | .aliasOf ty => followKey "alias" ty.follow

def Instruction.follow (ix : Instruction) (path : Path) : Option (Option Ty) :=
  followItem "args" ix.args (fun f => f.ty.follow) path
    <|> followKey "returns" (fun rest => ix.returns.bind fun ty => ty.follow rest) path

/-- The place to which a path leads from the document; `some none` is a place with `null`. -/
def Document.follow (doc : Document) (path : Path) : Option (Option Ty) :=
  followItem "instructions" doc.instructions Instruction.follow path
    <|> (followItem "types" doc.types (fun d => d.body.follow) path
      <|> followItem "constants" doc.constants (fun c => c.ty.follow) path)

/-- The places under a path are those to which `follow` leads from there, and none is listed twice. -/
structure Charts (places : List Place) (base : Path) (follow : Path → Option (Option Ty)) : Prop where
  mem : ∀ path slot, (path, slot) ∈ places ↔ ∃ rest, path = base ++ rest ∧ follow rest = some slot
  nodup : (places.map Prod.fst).Nodup

@[simp] theorem followKey_key (key : String) (follow : Path → Option (Option Ty)) (rest : Path) :
    followKey key follow (.key key :: rest) = follow rest :=
  if_pos rfl

theorem followKey_eq_some {key : String} {follow : Path → Option (Option Ty)} {path : Path} {slot : Option Ty}
    (h : followKey key follow path = some slot) : ∃ rest, path = .key key :: rest ∧ follow rest = some slot := by
  unfold followKey at h
  split at h
  · next k rest =>
    split at h
    · next hk => exact ⟨rest, by rw [hk], h⟩
    · cases h
  · cases h

section Items

variable {α : Type} {key : String} {items : List α} {follow : α → Path → Option (Option Ty)}

theorem followItem_item (i : Nat) (rest : Path) :
    followItem key items follow (.key key :: .index i :: rest) = items[i]?.bind fun item => follow item rest :=
  if_pos rfl

theorem followItem_eq_some {path : Path} {slot : Option Ty} (h : followItem key items follow path = some slot) :
    ∃ i item rest, path = .key key :: .index i :: rest ∧ items[i]? = some item ∧ follow item rest = some slot := by
  unfold followItem at h
  split at h
  · next k i rest =>
    split at h
    · next hk =>
      obtain ⟨item, hitem, hslot⟩ := Option.bind_eq_some_iff.mp h
      exact ⟨i, item, rest, by rw [hk], hitem, hslot⟩
    · cases h
  · cases h

theorem mem_eachPlaces {places : Nat → α → List Place} {place : Place} (i : Nat) :
    place ∈ eachPlaces places i items ↔ ∃ n item, items[n]? = some item ∧ place ∈ places (i + n) item := by
  induction items generalizing i with
  | nil => simp [eachPlaces]
  | cons first rest ih =>
    rw [eachPlaces, List.mem_append, ih]
    constructor
    · rintro (hfirst | ⟨n, item, hitem, hplace⟩)
      · exact ⟨0, first, rfl, hfirst⟩
      · exact ⟨n + 1, item, hitem, by rwa [Nat.add_assoc, Nat.add_comm 1] at hplace⟩
    · rintro ⟨n, item, hitem, hplace⟩
      cases n with
      | zero =>
        cases hitem
        exact .inl hplace
      | succ n => exact .inr ⟨n, item, hitem, by rwa [Nat.add_assoc, Nat.add_comm 1]⟩

end Items

namespace Charts

variable {places others : List Place} {base : Path} {follow other : Path → Option (Option Ty)} {key : String}

theorem nil (hnone : ∀ path, follow path = none) : Charts [] base follow where
  mem path slot := by
    constructor
    · exact fun h => nomatch h
    · rintro ⟨rest, -, hrest⟩
      cases (hnone rest).symm.trans hrest
  nodup := List.nodup_nil

theorem under (h : Charts places base follow) {path : Path} (hpath : path ∈ places.map Prod.fst) :
    ∃ rest slot, path = base ++ rest ∧ follow rest = some slot := by
  obtain ⟨⟨_, slot⟩, hmem, rfl⟩ := List.mem_map.mp hpath
  obtain ⟨rest, hrest, hslot⟩ := (h.mem _ _).mp hmem
  exact ⟨rest, slot, hrest, hslot⟩

theorem behind (h : Charts places (base ++ [.key key]) follow) : Charts places base (followKey key follow) where
  mem path slot := by
    rw [h.mem]
    constructor
    · rintro ⟨rest, rfl, hslot⟩
      exact ⟨.key key :: rest, by simp, (followKey_key key follow rest).trans hslot⟩
    · rintro ⟨_, rfl, hslot⟩
      obtain ⟨rest, rfl, hrest⟩ := followKey_eq_some hslot
      exact ⟨rest, by simp, hrest⟩
  nodup := h.nodup

/-- A place and the places behind it. -/
theorem cons {slot : Option Ty} (h : Charts places base other) (hbase : other [] = none)
    (hhere : follow [] = some slot) (hbehind : ∀ segment rest, follow (segment :: rest) = other (segment :: rest)) :
    Charts ((base, slot) :: places) base follow where
  mem path place := by
    rw [List.mem_cons, h.mem, Prod.mk.injEq]
    constructor
    · rintro (⟨rfl, rfl⟩ | ⟨rest, rfl, hplace⟩)
      · exact ⟨[], (List.append_nil _).symm, hhere⟩
      · cases rest with
        | nil => cases hbase.symm.trans hplace
        | cons segment rest => exact ⟨segment :: rest, rfl, (hbehind segment rest).trans hplace⟩
    · rintro ⟨rest, rfl, hplace⟩
      cases rest with
      | nil => exact .inl ⟨List.append_nil _, Option.some.inj (hplace.symm.trans hhere)⟩
      | cons segment rest => exact .inr ⟨_, rfl, (hbehind segment rest).symm.trans hplace⟩
  nodup := by
    refine List.nodup_cons.mpr ⟨fun hmem => ?_, h.nodup⟩
    obtain ⟨rest, place, hrest, hplace⟩ := h.under hmem
    rw [List.self_eq_append_right.mp hrest, hbase] at hplace
    cases hplace

theorem append (h : Charts places base follow) (h' : Charts others base other)
    (hapart : ∀ path slot, follow path = some slot → other path = none) :
    Charts (places ++ others) base (fun path => follow path <|> other path) where
  mem path slot := by
    have hor : ∀ rest, (follow rest <|> other rest) = some slot ↔ follow rest = some slot ∨ other rest = some slot := by
      intro rest
      cases hrest : follow rest with
      | none => simp
      | some place => simp [hapart rest place hrest]
    simp only [List.mem_append, h.mem, h'.mem, hor, and_or_left, exists_or]
  nodup := by
    rw [List.map_append]
    refine List.nodup_append.mpr ⟨h.nodup, h'.nodup, ?_⟩
    rintro path hpath _ hpath' rfl
    obtain ⟨rest, slot, rfl, hslot⟩ := h.under hpath
    obtain ⟨rest', slot', heq, hslot'⟩ := h'.under hpath'
    rw [← List.append_cancel_left heq, hapart rest slot hslot] at hslot'
    cases hslot'

/-- Different items are under different paths, so the places of all of them are still listed once. -/
theorem items {α : Type} (key : String) {places : Nat → α → List Place} {follow : α → Path → Option (Option Ty)} {items : List α}
    (h : ∀ i, ∀ item ∈ items, Charts (places i item) (base.item key i) (follow item)) :
    Charts (eachPlaces places 0 items) base (followItem key items follow) where
  mem path slot := by
    rw [mem_eachPlaces]
    constructor
    · rintro ⟨i, item, hitem, hplace⟩
      obtain ⟨rest, rfl, hslot⟩ := ((h _ item (List.mem_of_getElem? hitem)).mem _ _).mp hplace
      refine ⟨.key key :: .index i :: rest, by simp [Path.item], ?_⟩
      rw [followItem_item, hitem]
      exact hslot
    · rintro ⟨_, rfl, hslot⟩
      obtain ⟨i, item, rest, rfl, hitem, hslot⟩ := followItem_eq_some hslot
      refine ⟨i, item, hitem, ?_⟩
      rw [Nat.zero_add]
      exact ((h i item (List.mem_of_getElem? hitem)).mem _ _).mpr ⟨rest, by simp [Path.item], hslot⟩
  nodup := by
    suffices hfrom : ∀ i, ((eachPlaces places i items).map Prod.fst).Nodup from hfrom 0
    induction items with
    | nil => exact fun _ => List.nodup_nil
    | cons first rest ih =>
      intro i
      have hrest := fun i item hitem => h i item (List.mem_cons_of_mem _ hitem)
      rw [eachPlaces, List.map_append]
      refine List.nodup_append.mpr ⟨(h i first List.mem_cons_self).nodup, ih hrest (i + 1), ?_⟩
      rintro path hpath _ hpath' rfl
      obtain ⟨steps, -, rfl, -⟩ := (h i first List.mem_cons_self).under hpath
      obtain ⟨⟨_, slot⟩, hmem, hfst⟩ := List.mem_map.mp hpath'
      obtain ⟨n, item, hitem, hplace⟩ := (mem_eachPlaces (i + 1)).mp hmem
      obtain ⟨steps', -, heq, -⟩ := (hrest _ item (List.mem_of_getElem? hitem)).under (List.mem_map_of_mem hplace)
      have hpaths := hfst.symm.trans heq
      simp [Path.item] at hpaths
      omega

end Charts

theorem argPlaces_eq (path : Path) (i : Nat) (args : List GenericArg) :
    argPlaces path i args
      = eachPlaces (fun i arg => arg.type?.elim [] fun ty => ty.places (path.item "generics" i)) i args := by
  induction args generalizing i with
  | nil => rfl
  | cons arg rest ih =>
    cases arg with
    | type ty => rw [argPlaces, eachPlaces, ih]; rfl
    | const value => rw [argPlaces, eachPlaces, ih]; rfl

theorem charts_slot {inner : Option Ty} (h : ∀ ty ∈ inner, ∀ base, Charts (ty.places base) base ty.follow)
    (base : Path) : Charts (slotPlaces base inner) base (fun path => followSlot path inner) := by
  cases inner with
  | none =>
    refine (Charts.nil fun _ => rfl).cons rfl rfl fun segment rest => ?_
    cases segment <;> rfl
  | some ty => exact h ty rfl base

theorem Ty.charts (ty : Ty) (base : Path) : Charts (ty.places base) base ty.follow := by
  induction ty using Ty.induction generalizing base with
  | prim p =>
    refine (Charts.nil fun _ => rfl).cons rfl rfl fun segment rest => ?_
    cases segment <;> rfl
  | option tag inner ih =>
    refine (charts_slot ih _).behind.cons rfl rfl fun segment rest => ?_
    cases segment <;> rfl
  | vec inner ih =>
    refine (charts_slot ih _).behind.cons rfl rfl fun segment rest => ?_
    cases segment <;> rfl
  | array inner length ih =>
    refine (charts_slot ih _).behind.cons rfl rfl fun segment rest => ?_
    cases segment <;> rfl
  | defined name args ih =>
    rw [Ty.places, argPlaces_eq]
    have hargs : ∀ i, ∀ arg ∈ args, Charts (arg.type?.elim [] fun ty => ty.places (base.item "generics" i))
        (base.item "generics" i) (fun rest => arg.type?.bind fun ty => ty.follow rest) := by
      intro i arg harg
      cases arg with
      | type ty => exact ih ty harg _
      | const value => exact Charts.nil fun _ => rfl
    refine (Charts.items "generics" hargs).cons rfl rfl fun segment rest => ?_
    rcases segment with key | i
    · rcases rest with _ | ⟨_ | i, rest⟩ <;> rfl
    · rfl
  | generic name =>
    refine (Charts.nil fun _ => rfl).cons rfl rfl fun segment rest => ?_
    cases segment <;> rfl

theorem Fields.charts (fields : Fields) (base : Path) : Charts (fields.places base) base fields.follow := by
  cases fields with
  | named fields => exact Charts.items "fields" fun i f _ => f.ty.charts _
  | tuple types => exact Charts.items "fields" fun i ty _ => ty.charts _

theorem Variant.charts (v : Variant) (base : Path) : Charts (v.places base) base v.follow := by
  obtain ⟨name, _ | fields⟩ := v
  · exact Charts.nil fun _ => rfl
  · exact fields.charts base

theorem Body.charts (body : Body) (base : Path) : Charts (body.places base) base body.follow := by
  cases body with
  | struct fields =>
    cases fields with
    | none => exact Charts.nil fun _ => rfl
    | some fields => exact fields.charts base
  | enum variants => exact Charts.items "variants" fun i v _ => v.charts _
  | aliasOf ty => exact (ty.charts _).behind

theorem followItem_apart {α β : Type} {key key' : String} {items : List α} {items' : List β}
    {follow : α → Path → Option (Option Ty)} {follow' : β → Path → Option (Option Ty)} (hne : key ≠ key')
    (path : Path) (slot : Option Ty) (h : followItem key items follow path = some slot) :
    followItem key' items' follow' path = none := by
  obtain ⟨i, item, rest, rfl, -, -⟩ := followItem_eq_some h
  exact if_neg hne

theorem Instruction.charts (ix : Instruction) (base : Path) : Charts (ix.places base) base ix.follow := by
  have hargs := Charts.items "args" fun i (f : Field) (_ : f ∈ ix.args) => f.ty.charts (base.item "args" i)
  refine hargs.append (Charts.behind ?_) fun path slot h => ?_
  · cases ix.returns with
    | none => exact Charts.nil fun _ => rfl
    | some ty => exact ty.charts _
  · obtain ⟨i, f, rest, rfl, -, -⟩ := followItem_eq_some h
    rfl

theorem Document.charts (doc : Document) : Charts doc.listed [] doc.follow := by
  have hinstructions := Charts.items "instructions" fun i ix (_ : ix ∈ doc.instructions) =>
    ix.charts (Path.item [] "instructions" i)
  have htypes := Charts.items "types" fun i d (_ : d ∈ doc.types) => d.body.charts (Path.item [] "types" i)
  have hconstants := Charts.items "constants" fun i c (_ : c ∈ doc.constants) =>
    c.ty.charts (Path.item [] "constants" i)
  refine hinstructions.append (htypes.append hconstants (followItem_apart (by decide))) ?_
  intro path slot h
  rw [followItem_apart (by decide) path slot h, followItem_apart (by decide) path slot h]
  rfl

namespace Document

variable (doc : Document)

theorem mem_places {path : Path} {slot : Option Ty} : (path, slot) ∈ doc.places ↔ doc.follow path = some slot := by
  rw [places_eq, doc.charts.mem]
  simp

/-- No path is walked twice. -/
theorem nodup_places : (doc.places.map Prod.fst).Nodup := by
  rw [places_eq]
  exact doc.charts.nodup

end Document

end WireSchema.Schema
