import Mathlib.Data.List.TakeWhile
import WireSchema.Proofs.Schema.Navigation
import WireSchema.Proofs.Schema.Visits

/-!
# The order of a walk

Places come in the order of the document: the parts of a list by their index,
other parts in the order in which a document has them, and a place before what
is inside of it. Between a place and what is inside of it comes nothing from
outside. With the places to which a path leads, each once, that is all there is
to say about the calls of a visitor that goes on.
-/

namespace WireSchema.Schema

set_option autoImplicit false

/-- The keys under which a document and an instruction have several parts, in their order. -/
def partKeys : List String := ["instructions", "types", "constants", "args", "returns"]

/-- The first path leads to a place before that of the second. -/
inductive Path.Before : Path → Path → Prop where
  | inside {segment : Segment} {rest : Path} : Path.Before [] (segment :: rest)
  | item {i j : Nat} {p q : Path} : i < j → Path.Before (.index i :: p) (.index j :: q)
  | part {k l : String} {p q : Path} : partKeys.idxOf k < partKeys.idxOf l → Path.Before (.key k :: p) (.key l :: q)
  | along {segment : Segment} {p q : Path} : Path.Before p q → Path.Before (segment :: p) (segment :: q)

namespace Path.Before

variable {p q r : Path}

theorem append (base : Path) (h : Path.Before p q) : Path.Before (base ++ p) (base ++ q) := by
  induction base with
  | nil => exact h
  | cons segment base ih => exact ih.along

/-- What is inside of a place comes before all that follows the place and is not inside of it. -/
theorem isPrefix_of_between (hpr : Path.Before p r) (hrq : Path.Before r q) (h : p <+: q) : p <+: r := by
  induction hpr generalizing q with
  | inside => exact List.nil_prefix
  | item hlt =>
    obtain ⟨rest, rfl⟩ := h
    cases hrq with
    | item hlt' => exact absurd hlt' (Nat.lt_asymm hlt)
    | along => exact absurd hlt (Nat.lt_irrefl _)
  | part hlt =>
    obtain ⟨rest, rfl⟩ := h
    cases hrq with
    | part hlt' => exact absurd hlt' (Nat.lt_asymm hlt)
    | along => exact absurd hlt (Nat.lt_irrefl _)
  | along hpr ih =>
    obtain ⟨rest, rfl⟩ := h
    rw [List.prefix_cons_inj]
    cases hrq with
    | item hlt => exact absurd hlt (Nat.lt_irrefl _)
    | part hlt => exact absurd hlt (Nat.lt_irrefl _)
    | along hrq => exact ih hrq (List.prefix_append _ _)

theorem not_isPrefix (h : Path.Before q p) : ¬ p <+: q := by
  intro hpq
  induction h with
  | inside => cases List.prefix_nil.mp hpq
  | item hlt =>
    rw [List.cons_prefix_cons, Segment.index.injEq] at hpq
    omega
  | part hlt =>
    rw [List.cons_prefix_cons, Segment.key.injEq] at hpq
    rw [hpq.1] at hlt
    exact Nat.lt_irrefl _ hlt
  | along _ ih => exact ih (List.prefix_cons_inj _ |>.mp hpq)

end Path.Before

/-- Every place comes before those behind it in the list. -/
def InOrder (places : List Place) : Prop :=
  places.Pairwise fun place later => place.1.Before later.1

/-- Every place is at the end of the path or inside of it. -/
def Within (base : Path) (places : List Place) : Prop :=
  ∀ place ∈ places, base <+: place.1

/-- What is inside of a place stands right behind it, and nothing else does. -/
def Gathered (places : List Place) : Prop :=
  ∀ before place after, places = before ++ place :: after → ∃ inside others, after = inside ++ others
    ∧ Within place.1 inside ∧ ∀ other ∈ before ++ others, ¬ place.1 <+: other.1

theorem Charts.within {places : List Place} {base : Path} {follow : Path → Option (Option Ty)}
    (h : Charts places base follow) : Within base places := by
  rintro ⟨path, slot⟩ hplace
  obtain ⟨rest, rfl, -⟩ := (h.mem path slot).mp hplace
  exact List.prefix_append base rest

theorem Within.each {α : Type} {base : Path} {key : String} {places : Nat → α → List Place} {items : List α}
    (h : ∀ i, ∀ item ∈ items, Within (base.item key i) (places i item)) (i : Nat) :
    Within (base ++ [.key key]) (eachPlaces places i items) := by
  intro place hplace
  obtain ⟨n, item, hitem, hmem⟩ := (mem_eachPlaces i).mp hplace
  refine List.IsPrefix.trans ?_ (h _ item (List.mem_of_getElem? hitem) place hmem)
  exact ⟨[.index (i + n)], by simp [Path.item]⟩

/-- Every place is inside of a part that comes later than the part under the key. -/
def Behind (base : Path) (key : String) (places : List Place) : Prop :=
  ∀ place ∈ places, ∃ key', partKeys.idxOf key < partKeys.idxOf key' ∧ base ++ [.key key'] <+: place.1

theorem Within.behind {base : Path} {key key' : String} {places : List Place} (h : Within (base ++ [.key key']) places)
    (hkeys : partKeys.idxOf key < partKeys.idxOf key') : Behind base key places := fun place hplace =>
  ⟨key', hkeys, h place hplace⟩

theorem Behind.append {base : Path} {key : String} {places others : List Place} (h : Behind base key places)
    (h' : Behind base key others) : Behind base key (places ++ others) := fun place hplace =>
  (List.mem_append.mp hplace).elim (h place) (h' place)

namespace InOrder

variable {places : List Place} {base : Path}

theorem nil : InOrder [] :=
  List.Pairwise.nil

theorem cons {segment : Segment} (slot : Option Ty) (h : InOrder places) (hin : Within (base ++ [segment]) places) :
    InOrder ((base, slot) :: places) := by
  refine List.pairwise_cons.mpr ⟨fun place hplace => ?_, h⟩
  obtain ⟨rest, hrest⟩ := hin place hplace
  have hinside : Path.Before [] (segment :: rest) := .inside
  have hbefore := hinside.append base
  rwa [List.append_nil, List.append_cons, hrest] at hbefore

theorem each {α : Type} {key : String} {places : Nat → α → List Place} {items : List α}
    (h : ∀ i, ∀ item ∈ items, InOrder (places i item))
    (hin : ∀ i, ∀ item ∈ items, Within (base.item key i) (places i item))
    (i : Nat) : InOrder (eachPlaces places i items) := by
  induction items generalizing i with
  | nil => exact nil
  | cons first rest ih =>
    have hrest := ih (fun i item hitem => h i item (List.mem_cons_of_mem _ hitem))
      (fun i item hitem => hin i item (List.mem_cons_of_mem _ hitem)) (i + 1)
    refine List.pairwise_append.mpr ⟨h i first List.mem_cons_self, hrest, fun place hplace later hlater => ?_⟩
    obtain ⟨n, item, hitem, hmem⟩ := (mem_eachPlaces (i + 1)).mp hlater
    obtain ⟨p, hp⟩ := hin i first List.mem_cons_self place hplace
    obtain ⟨q, hq⟩ := hin _ item (List.mem_cons_of_mem _ (List.mem_of_getElem? hitem)) later hmem
    have hitems : Path.Before (.key key :: .index i :: p) (.key key :: .index (i + 1 + n) :: q) :=
      .along (.item (by omega))
    rw [← hp, ← hq]
    simpa [Path.item] using hitems.append base

theorem append {others : List Place} {key : String} (h : InOrder places) (h' : InOrder others)
    (hin : Within (base ++ [.key key]) places) (hin' : Behind base key others) : InOrder (places ++ others) := by
  refine List.pairwise_append.mpr ⟨h, h', fun place hplace later hlater => ?_⟩
  obtain ⟨key', hkeys, q, hq⟩ := hin' later hlater
  obtain ⟨p, hp⟩ := hin place hplace
  have hparts : Path.Before (.key key :: p) (.key key' :: q) := .part hkeys
  rw [← hp, ← hq]
  simpa using hparts.append base

theorem gathered (h : InOrder places) : Gathered places := by
  rintro before place after rfl
  obtain ⟨-, hfrom, hcross⟩ := List.pairwise_append.mp h
  obtain ⟨hplace, hafter⟩ := List.pairwise_cons.mp hfrom
  let isInside (other : Place) : Bool := decide (place.1 <+: other.1)
  have hsplit : after.takeWhile isInside ++ after.dropWhile isInside = after := List.takeWhile_append_dropWhile
  refine ⟨after.takeWhile isInside, after.dropWhile isInside, hsplit.symm, fun other hother => ?_,
    fun other hother => ?_⟩
  · have hinside : isInside other = true := List.mem_takeWhile_imp hother
    exact of_decide_eq_true hinside
  rcases List.mem_append.mp hother with hbefore | hothers
  · exact (hcross other hbefore place List.mem_cons_self).not_isPrefix
  -- The first of the others is not inside, so nothing after it can be.
  cases hrest : after.dropWhile isInside with
  | nil => rw [hrest] at hothers; cases hothers
  | cons first rest =>
    have hfirst : ¬ place.1 <+: first.1 := by
      have hnot := List.head?_dropWhile_not isInside after
      rw [hrest] at hnot
      simpa [isInside] using hnot
    have hmem : first ∈ after := by rw [← hsplit, hrest]; simp
    rw [← hsplit, hrest] at hafter
    rw [hrest] at hothers
    rcases List.mem_cons.mp hothers with rfl | hlater
    · exact hfirst
    · intro hinside
      have hbetween := (List.pairwise_cons.mp (List.pairwise_append.mp hafter).2.1).1 other hlater
      exact hfirst ((hplace first hmem).isPrefix_of_between hbetween hinside)

end InOrder

theorem inOrder_slot {inner : Option Ty} (h : ∀ ty ∈ inner, ∀ base, InOrder (ty.places base)) (base : Path) :
    InOrder (slotPlaces base inner) := by
  cases inner with
  | none => exact List.pairwise_singleton _ _
  | some ty => exact h ty rfl base

theorem within_slot (base : Path) (inner : Option Ty) : Within base (slotPlaces base inner) :=
  (charts_slot (fun ty _ base => ty.charts base) base).within

theorem Ty.inOrder (ty : Ty) (base : Path) : InOrder (ty.places base) := by
  induction ty using Ty.induction generalizing base with
  | prim p => exact List.pairwise_singleton _ _
  | option tag inner ih => exact (inOrder_slot ih _).cons _ (within_slot _ inner)
  | vec inner ih => exact (inOrder_slot ih _).cons _ (within_slot _ inner)
  | array inner length ih => exact (inOrder_slot ih _).cons _ (within_slot _ inner)
  | defined name args ih =>
    rw [Ty.places, argPlaces_eq]
    have hwithin : ∀ i, ∀ arg ∈ args, Within (base.item "generics" i)
        (arg.type?.elim [] fun ty => ty.places (base.item "generics" i)) := by
      intro i arg _
      cases arg with
      | type ty => exact (ty.charts _).within
      | const value => exact fun _ hplace => absurd hplace List.not_mem_nil
    refine (InOrder.each (fun i arg harg => ?_) hwithin 0).cons _ (Within.each hwithin 0)
    cases arg with
    | type ty => exact ih ty harg _
    | const value => exact InOrder.nil
  | generic name => exact List.pairwise_singleton _ _

theorem Fields.inOrder (fields : Fields) (base : Path) : InOrder (fields.places base) := by
  cases fields with
  | named fields => exact InOrder.each (fun i f _ => f.ty.inOrder _) (fun i f _ => (f.ty.charts _).within) 0
  | tuple types => exact InOrder.each (fun i ty _ => ty.inOrder _) (fun i ty _ => (ty.charts _).within) 0

theorem Variant.inOrder (v : Variant) (base : Path) : InOrder (v.places base) := by
  obtain ⟨name, _ | fields⟩ := v
  · exact InOrder.nil
  · exact fields.inOrder base

theorem Body.inOrder (body : Body) (base : Path) : InOrder (body.places base) := by
  cases body with
  | struct fields =>
    cases fields with
    | none => exact InOrder.nil
    | some fields => exact fields.inOrder base
  | enum variants => exact InOrder.each (fun i v _ => v.inOrder _) (fun i v _ => (v.charts _).within) 0
  | aliasOf ty => exact ty.inOrder _

theorem Instruction.inOrder (ix : Instruction) (base : Path) : InOrder (ix.places base) := by
  have hwithin : ∀ i, ∀ f ∈ ix.args, Within (base.item "args" i) (Ty.places (base.item "args" i) (Field.ty f)) :=
    fun i f _ => (f.ty.charts _).within
  have hargs := InOrder.each (fun i (f : Field) (_ : f ∈ ix.args) => f.ty.inOrder _) hwithin 0
  unfold Instruction.places
  cases ix.returns with
  | none => simpa using hargs
  | some ty => exact hargs.append (ty.inOrder _) (Within.each hwithin 0) ((ty.charts _).within.behind (by decide))

namespace Document

variable {σ : Type} (doc : Document)

theorem inOrder_places : InOrder doc.places := by
  have hinstructions : ∀ i, ∀ ix ∈ doc.instructions,
      Within (Path.item [] "instructions" i) (ix.places (Path.item [] "instructions" i)) :=
    fun i ix _ => (ix.charts _).within
  have htypes : ∀ i, ∀ d ∈ doc.types, Within (Path.item [] "types" i) (d.body.places (Path.item [] "types" i)) :=
    fun i d _ => (d.body.charts _).within
  have hconstants : ∀ i, ∀ c ∈ doc.constants,
      Within (Path.item [] "constants" i) (c.ty.places (Path.item [] "constants" i)) :=
    fun i c _ => (c.ty.charts _).within
  have hbehind := (Within.each htypes 0).behind (by decide : partKeys.idxOf "instructions" < partKeys.idxOf "types")
  have hlast := (Within.each hconstants 0).behind
    (by decide : partKeys.idxOf "instructions" < partKeys.idxOf "constants")
  rw [places_eq]
  refine (InOrder.each (fun i ix _ => ix.inOrder _) hinstructions 0).append ?_ (Within.each hinstructions 0)
    (hbehind.append hlast)
  exact (InOrder.each (fun i d _ => d.body.inOrder _) htypes 0).append
    (InOrder.each (fun i c _ => c.ty.inOrder _) hconstants 0) (Within.each htypes 0)
    ((Within.each hconstants 0).behind (by decide))

/-- A visitor that goes on gets every place to which a path leads, once, in the order of the document, with
all that is inside of a place right behind it. -/
theorem calls_enumerate {visit : Visitor σ} (h : visit.Tireless) (s : σ) :
    let places := (doc.calls visit s).map Call.place
    (∀ path slot, (path, slot) ∈ places ↔ doc.follow path = some slot)
      ∧ (places.map Prod.fst).Nodup ∧ InOrder places ∧ Gathered places ∧ (doc.walk visit s).1 = true := by
  intro places
  have hplaces : places = doc.places := doc.map_place_calls h s
  have hwalk : (doc.walk visit s).1 = true := by
    rw [walk_eq, visitAll_eq_true_iff]
    exact fun call hcall => h.goesOn hcall
  rw [hplaces]
  exact ⟨fun _ _ => doc.mem_places, doc.nodup_places, doc.inOrder_places, doc.inOrder_places.gathered, hwalk⟩

/-- A null slot in the second type argument of a variant's field. -/
theorem calls_enumerate_argument :
    let pair : Variant := ⟨"Pair", some (.tuple [.defined "Box" [.const "4", .type (.vec none)]])⟩
    let doc : Document := { ofTypes [⟨"Choice", [], .borsh, none, [], .enum [⟨"Empty", none⟩, pair]⟩] with
      constants := [⟨"LIMIT", [], .prim .bool, "true"⟩] }
    let path : Path := [.key "types", .index 0, .key "variants", .index 1, .key "fields", .index 0,
      .key "generics", .index 1, .key "vec"]
    let counting : Visitor Nat := fun _ _ n => (true, n + 1)
    counting.Tireless ∧ doc.follow path = some none ∧ (path, none) ∈ (doc.calls counting 0).map Call.place
      ∧ (doc.walk counting 0).1 = true ∧ (doc.walk counting 0).2 = 4 := by
  intro pair doc path counting
  have htireless : counting.Tireless := fun _ _ _ => rfl
  obtain ⟨hmem, -, -, -, hwalk⟩ := doc.calls_enumerate htireless 0
  exact ⟨htireless, rfl, (hmem path none).mpr rfl, hwalk, rfl⟩

end Document

end WireSchema.Schema
