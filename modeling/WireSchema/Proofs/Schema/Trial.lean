import WireSchema.Proofs.Json.Members
import WireSchema.Proofs.Step
import WireSchema.Schema.Record

/-!
# What a trial accepts

A test accepts a word, a key, a text or a kind and nothing else. A shape is read
if it accepts the value and every shape tried before it refuses, and a record is
read field by field if each of its members is.
-/

namespace WireSchema.Schema

set_option autoImplicit false

section Tests

variable {α : Type} {json value : Json} {key word kind text : String}

@[simp] theorem expectWord_eq_ok : expectWord json word = .ok () ↔ json = .str word := by
  cases json with
  | str text => by_cases h : text = word <;> simp [expectWord, h]
  | _ => simp [expectWord]

@[simp] theorem requireKey_eq_ok {part : Part json} :
    requireKey json key = .ok part ↔ json.get? key = some part.val := by
  cases json with
  | obj entries =>
    unfold requireKey
    dsimp only
    split
    · next value hvalue =>
      have hpart : (Json.obj entries).get? key = some part.val ↔ value = part.val := by
        rw [hvalue, Option.some.injEq]
      rw [hpart, Except.ok.injEq]
      exact Subtype.ext_iff
    · next hnone => simp [hnone]
  | _ => simp [requireKey, Json.get?]

theorem requireKey_of_get? (h : json.get? key = some value) :
    requireKey json key = .ok ⟨value, Json.sizeOf_lt_of_get? h⟩ :=
  requireKey_eq_ok.mpr h

@[simp] theorem expectKind_eq_ok : expectKind json kind = .ok () ↔ json.get? "kind" = some (.str kind) := by
  unfold expectKind
  constructor
  · intro h
    obtain ⟨part, hpart, hword⟩ := Step.ok_of_bind h
    rw [requireKey_eq_ok.mp hpart, expectWord_eq_ok.mp hword]
  · intro h
    rw [requireKey_of_get? h]
    exact expectWord_eq_ok.mpr rfl

@[simp] theorem requireText_eq_ok : requireText json key = .ok text ↔ json.get? key = some (.str text) := by
  unfold requireText
  constructor
  · intro h
    obtain ⟨part, hpart, htext⟩ := Step.ok_of_bind h
    split at htext
    · next found hfound =>
      cases htext
      rw [requireKey_eq_ok.mp hpart, hfound]
    · cases htext
  · intro h
    rw [requireKey_of_get? h]
    rfl

theorem requireKey_bind {next : Part json → Except ShapeError α} (h : json.get? key = some value) :
    requireKey json key >>= next = next ⟨value, Json.sizeOf_lt_of_get? h⟩ := by
  rw [requireKey_of_get? h]
  rfl

theorem expectKind_bind {next : Unit → Except ShapeError α} (h : json.get? "kind" = some (.str kind)) :
    expectKind json kind >>= next = next () := by
  rw [expectKind_eq_ok.mpr h]
  rfl

end Tests

/-- A shape that does not accept the value. -/
def Refuses {α : Type} (trial : Except ShapeError α) : Prop :=
  ∀ a, trial ≠ .ok a

section Refuses

variable {α β : Type} {json : Json} {key word kind : String}

theorem Refuses.bind {trial : Except ShapeError α} (h : Refuses trial) (next : α → Except ShapeError β) :
    Refuses (trial >>= next) := by
  intro b hb
  obtain ⟨a, ha, -⟩ := Step.ok_of_bind hb
  exact h a ha

theorem Refuses.map {trial : Except ShapeError α} (h : Refuses trial) (f : α → β) : Refuses (f <$> trial) := by
  cases trial with
  | error e => exact fun b hb => nomatch hb
  | ok a => exact absurd rfl (h a)

theorem refuses_word (h : json ≠ .str word) : Refuses (expectWord json word) :=
  fun _ hword => h (expectWord_eq_ok.mp hword)

theorem refuses_key (h : json.get? key = none) : Refuses (requireKey json key) := by
  intro part hpart
  rw [requireKey_eq_ok, h] at hpart
  cases hpart

theorem refuses_kind {other : String} (h : json.get? "kind" = some (.str other)) (hne : other ≠ kind) :
    Refuses (expectKind json kind) := by
  intro _ hkind
  rw [expectKind_eq_ok, h, Option.some.injEq, Json.str.injEq] at hkind
  exact hne hkind

end Refuses

section Trials

variable {α : Type} {name target : String} {json : Json} {trial : Except ShapeError α} {rest trials : Trials α}
  {value : α}

theorem first_here (h : trial = .ok value) : Trials.first ((name, trial) :: rest) = .ok value := by
  rw [h]
  rfl

theorem first_later (h : Refuses trial) (hrest : rest.first = .ok value) :
    Trials.first ((name, trial) :: rest) = .ok value := by
  cases trial with
  | ok a => exact absurd rfl (h a)
  | error e => rw [Trials.first, hrest]

theorem firstMatch_of_first (h : trials.first = .ok value) : firstMatch target json trials = .ok value := by
  rw [firstMatch, h]

end Trials

section Records

variable {α : Type} {name key : String} {size index : Nat} {entries : List (String × Json)} {json : Json}
  {read : ValueReader α} {value : α}

theorem required_eq (h : entries.lookup key = some json) (hread : read json = .ok value) :
    RecordForm.required ⟨name, size, .inl entries⟩ index key read = .start value := by
  simp only [RecordForm.required, RecordForm.value?, h, Option.map_some, hread]
  rfl

theorem optional_eq {absent : α} (h : entries.lookup key = some json ∧ read json = .ok value
    ∨ entries.lookup key = none ∧ value = absent) :
    RecordForm.optional ⟨name, size, .inl entries⟩ index key read absent = .start value := by
  rcases h with ⟨hjson, hread⟩ | ⟨hnone, rfl⟩
  · simp only [RecordForm.optional, RecordForm.value?, hjson, Option.map_some, hread]
    rfl
  · simp only [RecordForm.optional, RecordForm.value?, hnone, Option.map_none]
    rfl

/-- What is left out in a member written in short is what stands for an absent member. -/
theorem optional_written {absent : α} {full omissible : Bool}
    (h : entries.lookup key = Json.written full omissible json) (hread : read json = .ok value)
    (homissible : omissible = true → value = absent) :
    RecordForm.optional ⟨name, size, .inl entries⟩ index key read absent = .start value := by
  apply optional_eq
  cases hwritten : Json.written full omissible json with
  | some other =>
    rw [hwritten, Json.eq_of_written hwritten] at h
    exact .inl ⟨h, hread⟩
  | none => exact .inr ⟨h.trans hwritten, homissible (Json.omissible_of_written hwritten)⟩

end Records

section Values

variable {α : Type} {write : α → Json}

theorem mapM_map_eq_ok {β ε : Type} {write : α → β} {read : β → Except ε α} {items : List α}
    (h : ∀ a ∈ items, read (write a) = .ok a) : (items.map write).mapM read = .ok items := by
  induction items with
  | nil => rfl
  | cons a rest ih =>
    rw [List.map_cons, List.mapM_cons, h a List.mem_cons_self, ih fun a ha => h a (List.mem_cons_of_mem _ ha)]
    rfl

theorem eq_map_of_mapM {β ε : Type} {write : α → β} {read : β → Except ε α} (h : ∀ {a b}, read b = .ok a → b = write a)
    {found : List β} {items : List α} (hread : found.mapM read = .ok items) : found = items.map write := by
  induction found generalizing items with
  | nil =>
    cases hread
    rfl
  | cons b rest ih =>
    rw [List.mapM_cons] at hread
    obtain ⟨a, ha, hread⟩ := Step.ok_of_bind hread
    obtain ⟨others, hothers, hread⟩ := Step.ok_of_bind hread
    cases hread
    rw [List.map_cons, h ha, ih hothers]

theorem list_map_eq_ok {item : ValueReader α} {items : List α} (h : ∀ a ∈ items, item (write a) = .ok a) :
    ValueReader.list item (.arr (items.map write)) = .ok items :=
  mapM_map_eq_ok h

theorem nullable_orNull {value : ValueReader α} {a? : Option α}
    (h : ∀ a ∈ a?, value (write a) = .ok a ∧ write a ≠ .null) :
    ValueReader.nullable value (Json.orNull write a?) = .ok a? := by
  cases a? with
  | none => rfl
  | some a =>
    obtain ⟨hread, hnull⟩ := h a rfl
    have hsome : ValueReader.nullable value (write a) = some <$> value (write a) := by
      unfold ValueReader.nullable
      split
      · next heq => exact absurd heq hnull
      · rfl
    rw [Json.orNull, hsome, hread]
    rfl

theorem ofShape_eq_ok {read : Json → Except ShapeError α} {json : Json} {a : α} (h : read json = .ok a) :
    ValueReader.ofShape read json = .ok a := by
  rw [ValueReader.ofShape, h]
  rfl

theorem asShape_eq_ok {target : String} {read : ValueReader α} {json : Json} {a : α} (h : read json = .ok a) :
    asShape target read json = .ok a := by
  rw [asShape, h]
  rfl

end Values

end WireSchema.Schema
