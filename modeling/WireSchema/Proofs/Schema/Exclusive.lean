import WireSchema.Proofs.Schema.ReadBack
import WireSchema.Schema.Account
import WireSchema.Schema.Definition

/-!
# One shape for a value

Every shape of a sum type has a mark: a word, a key, the word under the key
`kind`, what a list begins with. A shape accepts only values with its mark, and
marks of one sum type do not go together, so at most one shape accepts a value,
and one that has a mark but is refused there is refused altogether. There are
two exceptions. A list without fields has no first field to go by, and each
wrapper of a type looks for its own key and for no other. What becomes of types
with several such keys is not said.
-/

namespace WireSchema.Schema

set_option autoImplicit false

section Exclusive

variable {α : Type} {trials : Trials α} {marks : List Prop}

/-- Of any two trials at least one refuses the value. -/
def Trials.AtMostOne (trials : Trials α) : Prop :=
  trials.Pairwise fun a b => Refuses a.2 ∨ Refuses b.2

/-- The trials have these marks in turn: none accepts a value without its mark, and no value has two. -/
structure Trials.ToldBy (trials : Trials α) (marks : List Prop) : Prop where
  own : List.Forall₂ (fun trial mark => ∀ a, trial.2 = .ok a → mark) trials marks
  apart : marks.Pairwise fun mark other => ¬ (mark ∧ other)

/-- At most one trial accepts the value, so that it is read alike in every order of trial, and where a mark is
but not what goes with it, nothing is read. -/
structure Trials.Exclusive (trials : Trials α) (marks : List Prop) : Prop where
  toldBy : trials.ToldBy marks
  atMostOne : trials.AtMostOne
  anyOrder : ∀ {other : Trials α}, trials.Perm other → ∀ a, other.first = .ok a ↔ trials.first = .ok a
  noOther : ∀ {trial : String × Except ShapeError α} {mark : Prop}, (trial, mark) ∈ trials.zip marks → mark →
    Refuses trial.2 → ∀ a, trials.first ≠ .ok a

theorem firstMatch_eq_ok {target : String} {json : Json} {a : α} :
    firstMatch target json trials = .ok a ↔ trials.first = .ok a := by
  unfold firstMatch
  cases trials.first with
  | error attempts => simp
  | ok b => simp

theorem accepts_of_first {a : α} (h : trials.first = .ok a) : ∃ trial ∈ trials, trial.2 = .ok a := by
  induction trials with
  | nil => cases h
  | cons trial rest ih =>
    obtain ⟨name, error | b⟩ := trial
    · rw [Trials.first] at h
      split at h
      · next value hvalue =>
        cases h
        obtain ⟨found, hfound, ha⟩ := ih hvalue
        exact ⟨found, List.mem_cons_of_mem _ hfound, ha⟩
      · cases h
    · cases h
      exact ⟨_, List.mem_cons_self, rfl⟩

/-- Where at most one trial accepts, what it makes of the value is what is read. -/
theorem Trials.AtMostOne.first_eq_ok (h : trials.AtMostOne) {a : α} :
    trials.first = .ok a ↔ ∃ trial ∈ trials, trial.2 = .ok a := by
  refine ⟨accepts_of_first, ?_⟩
  rintro ⟨trial, htrial, ha⟩
  induction trials with
  | nil => cases htrial
  | cons first rest ih =>
    obtain ⟨hfirst, hrest⟩ := List.pairwise_cons.mp h
    rcases List.mem_cons.mp htrial with rfl | htrial
    · exact first_here ha
    · have hrefuses : Refuses first.2 := (hfirst trial htrial).resolve_right fun hno => hno a ha
      exact first_later hrefuses (ih hrest htrial)

theorem Trials.AtMostOne.perm (h : trials.AtMostOne) {other : Trials α} (hperm : trials.Perm other) :
    other.AtMostOne :=
  (hperm.pairwise_iff fun h => h.symm).mp h

theorem Trials.ToldBy.accepts_mark (h : trials.ToldBy marks) {i : Nat} {trial : String × Except ShapeError α}
    {mark : Prop} (htrial : trials[i]? = some trial) (hmark : marks[i]? = some mark) {a : α}
    (ha : trial.2 = .ok a) : mark := by
  obtain ⟨hi, rfl⟩ := List.getElem?_eq_some_iff.mp htrial
  obtain ⟨hj, rfl⟩ := List.getElem?_eq_some_iff.mp hmark
  exact h.own.get hi hj a ha

/-- Two marks on one value are the same mark. -/
theorem Trials.ToldBy.index_eq (h : trials.ToldBy marks) {i j : Nat} {mark other : Prop}
    (hi : marks[i]? = some mark) (hj : marks[j]? = some other) (hmark : mark) (hother : other) : i = j := by
  obtain ⟨hlti, rfl⟩ := List.getElem?_eq_some_iff.mp hi
  obtain ⟨hltj, rfl⟩ := List.getElem?_eq_some_iff.mp hj
  have happart := List.pairwise_iff_getElem.mp h.apart
  rcases Nat.lt_trichotomy i j with hlt | heq | hgt
  · exact absurd ⟨hmark, hother⟩ (happart i j hlti hltj hlt)
  · exact heq
  · exact absurd ⟨hother, hmark⟩ (happart j i hltj hlti hgt)

theorem Trials.ToldBy.mark_at (h : trials.ToldBy marks) {i : Nat} (hi : i < trials.length) :
    ∃ mark, marks[i]? = some mark := by
  rw [h.own.length_eq] at hi
  exact ⟨_, List.getElem?_eq_getElem hi⟩

theorem Trials.ToldBy.atMostOne (h : trials.ToldBy marks) : trials.AtMostOne := by
  refine List.pairwise_iff_getElem.mpr fun i j hi hj hlt => ?_
  by_cases hrefuses : Refuses trials[i].2
  · exact .inl hrefuses
  · refine .inr fun b hb => ?_
    obtain ⟨a, ha⟩ := not_forall_not.mp hrefuses
    obtain ⟨mark, hmark⟩ := h.mark_at hi
    obtain ⟨other, hother⟩ := h.mark_at hj
    have hsame := h.index_eq hmark hother (h.accepts_mark (List.getElem?_eq_getElem hi) hmark ha)
      (h.accepts_mark (List.getElem?_eq_getElem hj) hother hb)
    exact Nat.ne_of_lt hlt hsame

theorem Trials.ToldBy.exclusive (h : trials.ToldBy marks) : trials.Exclusive marks where
  toldBy := h
  atMostOne := h.atMostOne
  anyOrder hperm a := by
    rw [(h.atMostOne.perm hperm).first_eq_ok, h.atMostOne.first_eq_ok]
    simp only [hperm.mem_iff]
  noOther {trial mark} hmem hhas hrefuses a ha := by
    obtain ⟨i, hi⟩ := List.getElem?_of_mem hmem
    obtain ⟨htrial, hmark⟩ := List.getElem?_zip_eq_some.mp hi
    obtain ⟨found, hfound, ha⟩ := accepts_of_first ha
    obtain ⟨j, hj⟩ := List.getElem?_of_mem hfound
    obtain ⟨other, hother⟩ := h.mark_at (List.getElem?_eq_some_iff.mp hj).1
    obtain rfl := h.index_eq hmark hother hhas (h.accepts_mark hj hother ha)
    rw [htrial] at hj
    cases hj
    exact hrefuses a ha

end Exclusive

section Marks

variable {α : Type} {json : Json} {key kind : String}

theorem kind_of_ok {next : Unit → Except ShapeError α} {a : α} (h : expectKind json kind >>= next = .ok a) :
    json.get? "kind" = some (.str kind) := by
  obtain ⟨_, hkind, -⟩ := Step.ok_of_bind h
  exact expectKind_eq_ok.mp hkind

theorem key_of_ok {next : Part json → Except ShapeError α} {a : α} (h : requireKey json key >>= next = .ok a) :
    (json.get? key).isSome := by
  obtain ⟨part, hpart, -⟩ := Step.ok_of_bind h
  rw [requireKey_eq_ok.mp hpart]
  rfl

theorem ok_of_map {β : Type} {f : α → β} {trial : Except ShapeError α} {b : β} (h : f <$> trial = .ok b) :
    ∃ a, trial = .ok a := by
  cases trial with
  | error e => cases h
  | ok a => exact ⟨a, rfl⟩

theorem word_of_ok {word : String} {f : Unit → α} {a : α} (h : f <$> expectWord json word = .ok a) :
    json = .str word := by
  obtain ⟨_, hword⟩ := ok_of_map h
  exact expectWord_eq_ok.mp hword

theorem text_of_ok {f : String → α} {a : α} (h : f <$> requireText json key = .ok a) :
    (json.get? key).isSome := by
  obtain ⟨text, htext⟩ := ok_of_map h
  rw [requireText_eq_ok.mp htext]
  rfl

/-- The word under the key `kind` is one of these, in turn. -/
def kindMarks (json : Json) (kinds : List String) : List Prop :=
  kinds.map fun kind => json.get? "kind" = some (.str kind)

def wordMarks (json : Json) (words : List String) : List Prop :=
  words.map fun word => json = .str word

def keyMarks (json : Json) (keys : List String) : List Prop :=
  keys.map fun key => (json.get? key).isSome

theorem apart_kinds {kinds : List String} (h : kinds.Nodup) :
    (kindMarks json kinds).Pairwise fun mark other => ¬ (mark ∧ other) := by
  refine List.pairwise_map.mpr (h.imp ?_)
  rintro kind other hne ⟨hkind, hother⟩
  rw [hkind, Option.some.injEq, Json.str.injEq] at hother
  exact hne hother

theorem apart_words {words : List String} (h : words.Nodup) :
    (wordMarks json words).Pairwise fun mark other => ¬ (mark ∧ other) := by
  refine List.pairwise_map.mpr (h.imp ?_)
  rintro word other hne ⟨rfl, hother⟩
  exact hne (Json.str.inj hother)

/-- The value has no two of these keys. -/
def OneKey (json : Json) (keys : List String) : Prop :=
  keys.Pairwise fun key other => json.get? key = none ∨ json.get? other = none

theorem apart_keys {keys : List String} (h : OneKey json keys) :
    (keyMarks json keys).Pairwise fun mark other => ¬ (mark ∧ other) := by
  refine List.pairwise_map.mpr (h.imp ?_)
  rintro key other hnone ⟨hkey, hother⟩
  rcases hnone with hnone | hnone
  · rw [hnone] at hkey
    cases hkey
  · rw [hnone] at hother
    cases hother

end Marks

section Shapes

variable (json : Json)

theorem toldBy_primitive : (Primitive.trials json).ToldBy (wordMarks json (Primitive.all.map Primitive.keyword)) where
  own := by
    rw [Primitive.trials, wordMarks, List.map_map, List.forall₂_map_left_iff, List.forall₂_map_right_iff,
      List.forall₂_same]
    exact fun p _ a h => word_of_ok h
  apart := apart_words (by decide)

/-- The keys of the wrappers, of references and of generics. -/
def Ty.shapeKeys : List String := ["option", "coption", "vec", "array", "defined", "generic"]

theorem toldBy_ty (h : OneKey json Ty.shapeKeys) : (Ty.trials json).ToldBy (keyMarks json Ty.shapeKeys) where
  own := by
    rw [Ty.trials]
    exact .cons (fun _ => key_of_ok) (.cons (fun _ => key_of_ok) (.cons (fun _ => key_of_ok)
      (.cons (fun _ => key_of_ok) (.cons (fun _ => key_of_ok) (.cons (fun _ => key_of_ok) .nil)))))
  apart := apart_keys h

theorem toldBy_length : (ArrayLength.trials json).ToldBy
    [∃ n : Int, json = .int n, (json.get? "generic").isSome] where
  own := by
    refine .cons (fun a h => ?_) (.cons (fun _ => text_of_ok) .nil)
    cases json with
    | int n => exact ⟨n, rfl⟩
    | _ => cases h
  apart := by
    refine List.pairwise_pair.mpr ?_
    rintro ⟨⟨n, rfl⟩, hkey⟩
    cases hkey

theorem toldBy_genericArg : (GenericArg.trials json).ToldBy (kindMarks json ["type", "const"]) where
  own := by
    rw [GenericArg.trials]
    exact .cons (fun _ => kind_of_ok) (.cons (fun _ => kind_of_ok) .nil)
  apart := apart_kinds (by decide)

/-- The value is a list, and its first item has a name, or has none. -/
def BeginsNamed (json : Json) (named : Bool) : Prop :=
  ∃ first rest, json = .arr (first :: rest) ∧ (first.get? "name").isSome = named

theorem items_of_expectList {json : Json} {items : List Json} (h : expectList json = .ok items) :
    json = .arr items := by
  cases json with
  | arr found =>
    cases h
    rfl
  | _ => cases h

theorem toldBy_fields (h : json ≠ .arr []) : (Fields.trials json).ToldBy
    [BeginsNamed json true, BeginsNamed json false] where
  own := by
    refine .cons (fun a ha => ?_) (.cons (fun a ha => ?_) .nil)
    all_goals
      obtain ⟨items, hitems, hread⟩ := Step.ok_of_bind ha
      obtain rfl := items_of_expectList hitems
      cases items with
      | nil => exact absurd rfl h
      | cons first rest =>
        dsimp only at hread
        refine ⟨first, rest, rfl, ?_⟩
        cases hname : first.get? "name" with
        | none =>
          rw [hname] at hread
          first | rfl | cases hread
        | some name =>
          rw [hname] at hread
          first | rfl | cases hread
  apart := by
    refine List.pairwise_pair.mpr ?_
    rintro ⟨⟨first, rest, rfl, hnamed⟩, other, more, heq, hother⟩
    cases heq
    rw [hnamed] at hother
    cases hother

theorem toldBy_body : (Body.trials json).ToldBy (kindMarks json ["struct", "enum", "type"]) where
  own := .cons (fun _ => kind_of_ok) (.cons (fun _ => kind_of_ok) (.cons (fun _ => kind_of_ok) .nil))
  apart := apart_kinds (by decide)

theorem toldBy_param : (Param.trials json).ToldBy (kindMarks json ["type", "const"]) where
  own := .cons (fun _ => kind_of_ok) (.cons (fun _ => kind_of_ok) .nil)
  apart := apart_kinds (by decide)

theorem toldBy_representation : (Representation.trials json).ToldBy (kindMarks json ["rust", "c", "transparent"]) where
  own := .cons (fun _ => kind_of_ok) (.cons (fun _ => kind_of_ok) (.cons (fun a h => by
    obtain ⟨_, h⟩ := ok_of_map h
    exact expectKind_eq_ok.mp h) .nil))
  apart := apart_kinds (by decide)

theorem toldBy_seed : (Seed.trials json).ToldBy (kindMarks json ["const", "arg", "account"]) where
  own := .cons (fun _ => kind_of_ok) (.cons (fun _ => kind_of_ok) (.cons (fun _ => kind_of_ok) .nil))
  apart := apart_kinds (by decide)

theorem toldBy_serialization : (Serialization.trials json).ToldBy
    (wordMarks json ["borsh", "bytemuck", "bytemuckunsafe"] ++ keyMarks json ["custom"]) where
  own := .cons (fun _ => word_of_ok) (.cons (fun _ => word_of_ok) (.cons (fun _ => word_of_ok)
    (.cons (fun _ => text_of_ok) .nil)))
  apart := by
    refine List.pairwise_append.mpr ⟨apart_words (by decide), List.pairwise_singleton _ _, ?_⟩
    rintro mark hmark other hother ⟨hword, hkey⟩
    obtain ⟨word, -, rfl⟩ := List.mem_map.mp hmark
    obtain ⟨key, -, rfl⟩ := List.mem_map.mp hother
    cases hword
    cases hkey

theorem toldBy_accountItem : (AccountItem.trials json).ToldBy
    [(json.get? "accounts").isSome, json.get? "accounts" = none] where
  own := by
    rw [AccountItem.trials]
    refine .cons (fun _ => key_of_ok) (.cons (fun a h => ?_) .nil)
    cases hkey : json.get? "accounts" with
    | none => rfl
    | some part =>
      simp only [hkey] at h
      cases h
  apart := by
    refine List.pairwise_pair.mpr ?_
    rintro ⟨hsome, hnone⟩
    rw [hnone] at hsome
    cases hsome

/-- Of every sum type at most one shape accepts the value. A list without fields is left out, and is read as
one with names; types are left out that have several of the keys of their shapes. -/
theorem shapes_exclusive :
    (Primitive.trials json).Exclusive (wordMarks json (Primitive.all.map Primitive.keyword))
      ∧ (OneKey json Ty.shapeKeys → (Ty.trials json).Exclusive (keyMarks json Ty.shapeKeys))
      ∧ (ArrayLength.trials json).Exclusive [∃ n : Int, json = .int n, (json.get? "generic").isSome]
      ∧ (GenericArg.trials json).Exclusive (kindMarks json ["type", "const"])
      ∧ (json ≠ .arr [] → (Fields.trials json).Exclusive [BeginsNamed json true, BeginsNamed json false])
      ∧ (json = .arr [] → Fields.read json = .ok (.named []))
      ∧ (Body.trials json).Exclusive (kindMarks json ["struct", "enum", "type"])
      ∧ (Param.trials json).Exclusive (kindMarks json ["type", "const"])
      ∧ (Serialization.trials json).Exclusive
        (wordMarks json ["borsh", "bytemuck", "bytemuckunsafe"] ++ keyMarks json ["custom"])
      ∧ (Representation.trials json).Exclusive (kindMarks json ["rust", "c", "transparent"])
      ∧ (Seed.trials json).Exclusive (kindMarks json ["const", "arg", "account"])
      ∧ (AccountItem.trials json).Exclusive [(json.get? "accounts").isSome, json.get? "accounts" = none] := by
  refine ⟨(toldBy_primitive json).exclusive, fun h => (toldBy_ty json h).exclusive, (toldBy_length json).exclusive,
    (toldBy_genericArg json).exclusive, fun h => (toldBy_fields json h).exclusive, ?_, (toldBy_body json).exclusive,
    (toldBy_param json).exclusive, (toldBy_serialization json).exclusive, (toldBy_representation json).exclusive,
    (toldBy_seed json).exclusive, (toldBy_accountItem json).exclusive⟩
  rintro rfl
  rfl

end Shapes

section Texts

variable {text : String}

/-- A text that is no keyword is no type. -/
theorem refuses_text (h : text ∉ Primitive.all.map Primitive.keyword) : Refuses (Ty.read (.str text)) := by
  intro ty hty
  rw [Ty.read, firstMatch_eq_ok] at hty
  obtain ⟨trial, htrial, hty⟩ := accepts_of_first hty
  obtain ⟨p, hp, rfl⟩ := List.mem_map.mp htrial
  exact h (Json.str.inj (word_of_ok hty) ▸ List.mem_map_of_mem hp)

theorem refuses_slot (h : text ∉ Primitive.all.map Primitive.keyword) : Refuses (Ty.readSlot (.str text)) := by
  rw [Ty.readSlot]
  · exact (refuses_text h).map some
  · intro h
    cases h

theorem readSlot_prim (p : Primitive) : Ty.readSlot (.str p.keyword) = .ok (some (.prim p)) := by
  rw [Ty.readSlot, read_prim]
  · rfl
  · intro h
    cases h

end Texts

/-- A vector of what is no type is refused although there is another key, and so is a tuple that begins with
what is no type. -/
theorem shapes_exclusive_vec :
    let vec : Json := .obj [("items", .str "u8"), ("vec", .str "u9")]
    let fields : Json := .arr [.str "u9", .str "u8"]
    OneKey vec Ty.shapeKeys ∧ fields ≠ .arr [] ∧ (∀ ty, (Ty.trials vec).first ≠ .ok ty)
      ∧ ∀ found, (Fields.trials fields).first ≠ .ok found := by
  intro vec fields
  have hkey : OneKey vec Ty.shapeKeys := by
    unfold OneKey
    decide
  have hfields : fields ≠ .arr [] := by simp [fields]
  obtain ⟨-, hvec, -⟩ := shapes_exclusive vec
  obtain ⟨-, -, -, -, htuple, -⟩ := shapes_exclusive fields
  refine ⟨hkey, hfields, ?_, (htuple hfields).noOther (.tail _ (.head _)) ?_ ?_⟩
  · have hget : vec.get? "vec" = some (.str "u9") := rfl
    have hmem := List.mem_of_getElem? (l := (Ty.trials vec).zip (keyMarks vec Ty.shapeKeys)) (i := 2) (by
      rw [Ty.trials]
      rfl)
    refine (hvec hkey).noOther hmem rfl ?_
    dsimp only
    rw [requireKey_bind hget]
    exact (refuses_slot (by decide)).bind _
  · exact ⟨.str "u9", [.str "u8"], rfl, rfl⟩
  · intro found hfound
    obtain ⟨items, hitems, hread⟩ := Step.ok_of_bind hfound
    cases hitems
    obtain ⟨types, htypes, -⟩ := Step.ok_of_bind hread
    obtain ⟨ty, hty, -⟩ := Step.ok_of_bind ((List.mapM_cons ..).symm.trans htypes)
    exact refuses_text (by decide) ty hty

/-- A misspelled option with the key of a vector beside it is read as a vector, two wrappers accept what has the
keys of both, and both forms of a list accept the one without items. -/
theorem shapes_overlap :
    let misspelled : Json := .obj [("option", .str "u9"), ("vec", .str "u8")]
    let both : Json := .obj [("option", .str "u8"), ("vec", .str "u8")]
    Ty.read misspelled = .ok (.vec (some (.prim (.scalar .u8)))) ∧ ¬ (Ty.trials both).AtMostOne
      ∧ ¬ (Fields.trials (.arr [])).AtMostOne := by
  intro misspelled both
  have hslot : Ty.readSlot (.str "u8") = .ok (some (.prim (.scalar .u8))) := readSlot_prim (.scalar .u8)
  refine ⟨?_, ?_, ?_⟩
  · have hoption : misspelled.get? "option" = some (.str "u9") := rfl
    have hvec : misspelled.get? "vec" = some (.str "u8") := rfl
    rw [Ty.read, firstMatch_eq_ok, Ty.trials, requireKey_bind hoption, requireKey_bind hvec, hslot]
    · exact first_later ((refuses_slot (by decide)).bind _) (first_later ((refuses_key rfl).bind _) (first_here rfl))
    · simp [misspelled]
  · intro h
    have hoption : both.get? "option" = some (.str "u8") := rfl
    have hvec : both.get? "vec" = some (.str "u8") := rfl
    rw [Ty.trials, requireKey_bind hoption, requireKey_bind hvec, hslot] at h
    rcases (List.pairwise_cons.mp h).1 _ (.tail _ (.head _)) with hrefuses | hrefuses
    · exact hrefuses (.option .byte (some (.prim (.scalar .u8)))) rfl
    · exact hrefuses (.vec (some (.prim (.scalar .u8)))) rfl
  · intro h
    rcases (List.pairwise_cons.mp h).1 _ (.head _) with hnamed | htuple
    · exact hnamed (.named []) rfl
    · exact htuple (.tuple []) rfl

end WireSchema.Schema
