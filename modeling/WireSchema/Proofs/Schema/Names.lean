import Mathlib.Data.List.Nodup
import WireSchema.Proofs.Entries
import WireSchema.Schema.Validation

/-!
# Lists of names

A list of names is described by what holds of its names: they come in ascending
order and each once. So it is empty if nothing has what they have in common. The
form of a name in camel case is not looked into.
-/

namespace WireSchema.Schema

set_option autoImplicit false

@[simp] theorem mem_sortedNames_iff {name : String} {names : List String} :
    name ∈ sortedNames names ↔ name ∈ names := by
  rw [sortedNames, Keyed.mem_keys_ofList, List.map_map]
  exact iff_of_eq (congrArg _ (List.map_id names))

theorem mem_sortedNames {name : String} {names : List String} (h : name ∈ names) : name ∈ sortedNames names :=
  mem_sortedNames_iff.mpr h

theorem sortedNames_ascending (names : List String) : (sortedNames names).Pairwise (· < ·) :=
  List.pairwise_map.mpr (Keyed.sorted_ofList _)

/-- In ascending order and each once, the names of which something holds. -/
def Lists (names : List String) (holds : String → Prop) : Prop :=
  names.Pairwise (· < ·) ∧ ∀ name, name ∈ names ↔ holds name

namespace Lists

variable {names : List String} {holds : String → Prop}

theorem sortedNames (names : List String) : Lists (sortedNames names) fun name => name ∈ names :=
  ⟨sortedNames_ascending names, fun _ => mem_sortedNames_iff⟩

theorem filter (h : Lists names holds) {test : String → Bool} {other : String → Prop}
    (hother : ∀ name, holds name ∧ test name = true ↔ other name) : Lists (names.filter test) other := by
  refine ⟨h.1.filter test, fun name => ?_⟩
  rw [List.mem_filter, h.2]
  exact hother name

theorem repeatedNames (names : List String) : Lists (repeatedNames names) fun name => 2 ≤ names.count name := by
  refine (sortedNames names).filter fun name => ?_
  rw [decide_eq_true_eq]
  exact and_iff_right_of_imp fun h => List.count_pos_iff.mp (Nat.lt_of_succ_lt h)

theorem eq_nil_iff (h : Lists names holds) : names = [] ↔ ∀ name, ¬ holds name := by
  rw [List.eq_nil_iff_forall_not_mem]
  exact forall_congr' fun name => not_congr (h.2 name)

theorem eq_nil_iff_nodup {repeated : List String} (h : Lists repeated fun name => 2 ≤ names.count name) :
    repeated = [] ↔ names.Nodup := by
  rw [h.eq_nil_iff, List.nodup_iff_count_le_one]
  exact forall_congr' fun name => by rw [Nat.not_le, Nat.lt_succ_iff]

/-- A list of two or more names has two different ones. -/
theorem one_lt_length (h : Lists names holds) :
    1 < names.length ↔ ∃ a b, holds a ∧ holds b ∧ a ≠ b := by
  constructor
  · intro hlength
    match names, h, hlength with
    | a :: b :: rest, h, _ =>
      have hlt : a < b := (List.pairwise_cons.mp h.1).1 b List.mem_cons_self
      refine ⟨a, b, (h.2 a).mp List.mem_cons_self, (h.2 b).mp (by simp), ?_⟩
      rintro rfl
      exact String.lt_irrefl a hlt
  · rintro ⟨a, b, ha, hb, hne⟩
    rw [← h.2] at ha hb
    match names, ha, hb with
    | [_], ha, hb => exact absurd ((List.mem_singleton.mp ha).trans (List.mem_singleton.mp hb).symm) hne
    | _ :: _ :: _, _, _ => exact Nat.one_lt_succ_succ _

end Lists

theorem nodup_of_repeatedNames {names : List String} (h : repeatedNames names = []) : names.Nodup :=
  (Lists.repeatedNames names).eq_nil_iff_nodup.mp h

theorem filterMap_ite {α β : Type} (holds : α → Prop) [DecidablePred holds] (entry : α → β) (items : List α) :
    items.filterMap (fun item => if holds item then some (entry item) else none)
      = (items.filter fun item => holds item).map entry := by
  rw [← List.filterMap_eq_filter, List.map_filterMap]
  refine congrArg (fun f => items.filterMap f) (funext fun item => ?_)
  by_cases h : holds item <;> simp [Option.guard, h]

section CamelCase

/-- An entry for different names that have one form. -/
def clashText (group : List String) (form : String) : String :=
  " / ".intercalate group ++ " (all normalize to " ++ form ++ ")"

/-- The group of a camel case form. -/
def sameCamelCase (names : List String) (form : String) : List String :=
  sortedNames (names.filter fun name => Text.upperCamelCase name = form)

theorem lists_sameCamelCase (names : List String) (form : String) :
    Lists (sameCamelCase names form) fun name => name ∈ names ∧ Text.upperCamelCase name = form := by
  refine ⟨sortedNames_ascending _, fun name => ?_⟩
  rw [sameCamelCase, mem_sortedNames_iff, List.mem_filter, decide_eq_true_eq]

theorem exists_camelCaseClashes (names : List String) : ∃ forms,
    Lists forms (fun form => ∃ a ∈ names, ∃ b ∈ names, a ≠ b
      ∧ Text.upperCamelCase a = form ∧ Text.upperCamelCase b = form)
    ∧ camelCaseClashes names = forms.map fun form => clashText (sameCamelCase names form) form := by
  refine ⟨(sortedNames (names.map Text.upperCamelCase)).filter
    fun form => 1 < (sameCamelCase names form).length, ?_, ?_⟩
  · refine (Lists.sortedNames _).filter fun form => ?_
    rw [decide_eq_true_eq, (lists_sameCamelCase names form).one_lt_length]
    constructor
    · rintro ⟨-, a, b, ⟨ha, hform⟩, ⟨hb, hform'⟩, hne⟩
      exact ⟨a, ha, b, hb, hne, hform, hform'⟩
    · rintro ⟨a, ha, b, hb, hne, hform, hform'⟩
      exact ⟨List.mem_map.mpr ⟨a, ha, hform⟩, a, b, ⟨ha, hform⟩, ⟨hb, hform'⟩, hne⟩
  · rw [← filterMap_ite]
    refine congrArg (fun entry => List.filterMap entry _) (funext fun form => ?_)
    simp only [clashText, sameCamelCase, String.append_assoc]
    rfl

variable {names : List String} {a b : String}

theorem eq_of_upperCamelCase (h : camelCaseClashes names = []) (ha : a ∈ names) (hb : b ∈ names)
    (hform : Text.upperCamelCase a = Text.upperCamelCase b) : a = b := by
  obtain ⟨forms, hforms, heq⟩ := exists_camelCaseClashes names
  rw [heq, List.map_eq_nil_iff, hforms.eq_nil_iff] at h
  by_contra hne
  exact h _ ⟨a, ha, b, hb, hne, hform, rfl⟩

end CamelCase

end WireSchema.Schema
