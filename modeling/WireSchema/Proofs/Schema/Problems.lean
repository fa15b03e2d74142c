import WireSchema.Proofs.Schema.InstructionNames
import WireSchema.Proofs.Schema.Navigation

/-!
# Which problems a document has

A document is accepted if it is well formed, and otherwise all its problems are
reported at once: each list holds what is wrong and nothing else. The names in
upper camel case are those of `Text.upperCamelCase`, whatever it does to a word.
-/

namespace WireSchema.Schema

set_option autoImplicit false

/-- A character of `[A-Za-z0-9_:]`. -/
def IsNameChar (c : Char) : Prop :=
  ('A' ≤ c ∧ c ≤ 'Z') ∨ ('a' ≤ c ∧ c ≤ 'z') ∨ ('0' ≤ c ∧ c ≤ '9') ∨ c = '_' ∨ c = ':'

/-- A text that matches `[A-Za-z0-9_:]+`. -/
def Spelled (name : String) : Prop :=
  name ≠ "" ∧ ∀ c ∈ name.toList, IsNameChar c

/-- A definition is needed for a name that stands for a type somewhere, or that an account or event has. -/
def Document.Wants (doc : Document) (name : String) : Prop :=
  (∃ path args, doc.follow path = some (some (.defined name args)))
    ∨ name ∈ doc.accounts.map Entity.name ∨ name ∈ doc.events.map Entity.name

/-- Not left out, and not of eight bytes. -/
def IsMalformed (discriminator : List UInt8) : Prop :=
  discriminator ≠ [] ∧ discriminator.length ≠ 8

instance (discriminator : List UInt8) : Decidable (IsMalformed discriminator) :=
  inferInstanceAs (Decidable (_ ∧ _))

structure Document.WellFormed (doc : Document) : Prop where
  filled : ∀ path, doc.follow path ≠ some none
  defined : ∀ name, doc.Wants name → name ∈ doc.types.map TypeDef.name
  types_distinct : (doc.types.map TypeDef.name).Nodup
  types_spelled : ∀ d ∈ doc.types, Spelled d.name
  accounts_sized : ∀ a ∈ doc.accounts, ¬ IsMalformed a.discriminator
  events_sized : ∀ e ∈ doc.events, ¬ IsMalformed e.discriminator
  instructions_sized : ∀ ix ∈ doc.instructions, ¬ IsMalformed ix.discriminator
  instructions_distinct : (doc.instructions.map Instruction.name).Nodup
  instructions_apart : (doc.instructions.map fun ix => Text.upperCamelCase ix.name).Nodup

structure Problems.Reports (p : Problems) (doc : Document) : Prop where
  notResolved : Lists p.notResolved fun name => doc.Wants name ∧ name ∉ doc.types.map TypeDef.name
  duplicateTypes : Lists p.duplicateTypes fun name => 2 ≤ (doc.types.map TypeDef.name).count name
  invalidNames : Lists p.invalidNames fun name => name ∈ doc.types.map TypeDef.name ∧ ¬ Spelled name
  discriminators : p.discriminators
    = (doc.accounts.filter fun a => IsMalformed a.discriminator).map
        (fun a => ⟨.account, a.name, a.discriminator.length⟩)
      ++ (doc.events.filter fun e => IsMalformed e.discriminator).map
        (fun e => ⟨.event, e.name, e.discriminator.length⟩)
      ++ (doc.instructions.filter fun ix => IsMalformed ix.discriminator).map
        (fun ix => ⟨.instruction, ix.name, ix.discriminator.length⟩)
  /-- The names that are repeated as they stand come first. -/
  duplicateInstructions : ∃ (repeated forms : List String) (group : String → List String),
    Lists repeated (fun name => 2 ≤ (doc.instructions.map Instruction.name).count name)
      ∧ Lists forms (fun form => ∃ a ∈ doc.instructions, ∃ b ∈ doc.instructions, a.name ≠ b.name
        ∧ Text.upperCamelCase a.name = form ∧ Text.upperCamelCase b.name = form)
      ∧ (∀ form, Lists (group form) fun name =>
        name ∈ doc.instructions.map Instruction.name ∧ Text.upperCamelCase name = form)
      ∧ p.duplicateInstructions = repeated ++ forms.map fun form => clashText (group form) form
  /-- The paths are in the order of a walk. -/
  missingTypes : ∃ paths : List Path, paths.Sublist (doc.places.map Prod.fst) ∧ paths.Nodup
    ∧ (∀ path, path ∈ paths ↔ doc.follow path = some none) ∧ p.missingTypes = paths.map Path.text

theorem isTypeName_iff {name : String} : isTypeName name = true ↔ Spelled name := by
  have hchar : ∀ c : Char, (c.isAlphanum || c = '_' || c = ':') = true ↔ IsNameChar c := by
    intro c
    delta Char.isAlphanum Char.isAlpha Char.isUpper Char.isLower Char.isDigit
    simp only [Bool.or_eq_true, Bool.and_eq_true, decide_eq_true_eq, IsNameChar, or_assoc, Char.le_def, ge_iff_le]
  simp only [isTypeName, Bool.and_eq_true, decide_eq_true_eq, List.all_eq_true, hchar, Spelled]

theorem discriminatorIssue?_eq (kind : EntityKind) (name : String) (bytes : List UInt8) :
    discriminatorIssue? (kind, name, bytes)
      = if IsMalformed bytes then some ⟨kind, name, bytes.length⟩ else none := by
  by_cases hempty : bytes = [] <;> by_cases hlength : bytes.length = 8 <;>
    simp [discriminatorIssue?, IsMalformed, hempty, hlength]

theorem issues_map {α : Type} (kind : EntityKind) (name : α → String) (bytes : α → List UInt8) (items : List α) :
    (items.map fun item => (kind, name item, bytes item)).filterMap discriminatorIssue?
      = (items.filter fun item => IsMalformed (bytes item)).map fun item =>
        ⟨kind, name item, (bytes item).length⟩ := by
  rw [List.filterMap_map, ← filterMap_ite]
  exact congrArg (fun f => items.filterMap f) (funext fun item => discriminatorIssue?_eq kind _ _)

namespace Document

variable (doc : Document)

theorem mem_wantedNames {name : String} : name ∈ doc.wantedNames ↔ doc.Wants name := by
  have hdefined : (∃ place ∈ doc.places, definedName? place.2 = some name)
      ↔ ∃ path args, doc.follow path = some (some (.defined name args)) := by
    constructor
    · rintro ⟨⟨path, slot⟩, hplace, hname⟩
      rw [mem_places] at hplace
      match slot, hname with
      | some (.defined _ args), rfl => exact ⟨path, args, hplace⟩
    · rintro ⟨path, args, hpath⟩
      exact ⟨(path, _), doc.mem_places.mpr hpath, rfl⟩
  rw [wantedNames, List.mem_append, List.mem_append, List.mem_filterMap, hdefined, or_assoc]
  rfl

theorem problems_reports : doc.problems.Reports doc where
  notResolved := by
    refine (Lists.sortedNames doc.wantedNames).filter fun name => ?_
    rw [mem_wantedNames]
    simp
  duplicateTypes := Lists.repeatedNames _
  invalidNames := by
    refine (Lists.sortedNames (doc.types.map TypeDef.name)).filter fun name => ?_
    rw [← isTypeName_iff, Bool.not_eq_true', Bool.not_eq_true]
  discriminators := by
    change doc.entities.filterMap discriminatorIssue? = _
    rw [entities, List.filterMap_append, List.filterMap_append, issues_map, issues_map, issues_map]
  duplicateInstructions := by
    obtain ⟨forms, hforms, hclashes⟩ := exists_camelCaseClashes (doc.instructions.map Instruction.name)
    refine ⟨_, forms, _, Lists.repeatedNames _, ?_, lists_sameCamelCase _, congrArg _ hclashes⟩
    refine ⟨hforms.1, fun form => (hforms.2 form).trans ?_⟩
    simp only [List.mem_map, exists_exists_and_eq_and]
  missingTypes := by
    refine ⟨(doc.places.filter fun place => place.2.isNone).map Prod.fst, ?_, ?_, fun path => ?_, ?_⟩
    · exact List.filter_sublist.map _
    · exact doc.nodup_places.sublist (List.filter_sublist.map _)
    · rw [List.mem_map]
      constructor
      · rintro ⟨⟨_, slot⟩, hplace, rfl⟩
        obtain ⟨hplace, hnone⟩ := List.mem_filter.mp hplace
        rw [Option.isNone_iff_eq_none] at hnone
        rw [← mem_places, ← hnone]
        exact hplace
      · exact fun h => ⟨(path, none), List.mem_filter.mpr ⟨doc.mem_places.mpr h, rfl⟩, rfl⟩
    · change doc.places.filterMap (fun place => if place.2.isNone then some place.1.text else none) = _
      rw [List.map_map, filterMap_ite]
      simp only [Bool.decide_eq_true]
      rfl

end Document

namespace Problems.Reports

variable {doc : Document} {p : Problems}

theorem notResolved_eq_nil (h : p.Reports doc) :
    p.notResolved = [] ↔ ∀ name, doc.Wants name → name ∈ doc.types.map TypeDef.name := by
  rw [h.notResolved.eq_nil_iff]
  exact forall_congr' fun name => by rw [not_and, not_not]

theorem invalidNames_eq_nil (h : p.Reports doc) : p.invalidNames = [] ↔ ∀ d ∈ doc.types, Spelled d.name := by
  rw [h.invalidNames.eq_nil_iff]
  simp

theorem discriminators_eq_nil (h : p.Reports doc) :
    p.discriminators = [] ↔ (∀ a ∈ doc.accounts, ¬ IsMalformed a.discriminator)
      ∧ (∀ e ∈ doc.events, ¬ IsMalformed e.discriminator)
      ∧ ∀ ix ∈ doc.instructions, ¬ IsMalformed ix.discriminator := by
  simp only [h.discriminators, List.append_eq_nil_iff, List.map_eq_nil_iff, List.filter_eq_nil_iff,
    decide_eq_true_eq, and_assoc]

theorem missingTypes_eq_nil (h : p.Reports doc) :
    p.missingTypes = [] ↔ ∀ path, doc.follow path ≠ some none := by
  obtain ⟨paths, -, -, hpaths, heq⟩ := h.missingTypes
  rw [heq, List.map_eq_nil_iff, List.eq_nil_iff_forall_not_mem]
  exact forall_congr' fun path => not_congr (hpaths path)

/-- Names are distinct in camel case if they are distinct as they stand and no two of them have one form. -/
theorem duplicateInstructions_eq_nil (h : p.Reports doc) :
    p.duplicateInstructions = [] ↔ (doc.instructions.map Instruction.name).Nodup
      ∧ (doc.instructions.map fun ix => Text.upperCamelCase ix.name).Nodup := by
  obtain ⟨repeated, forms, group, hrepeated, hforms, -, heq⟩ := h.duplicateInstructions
  rw [heq, List.append_eq_nil_iff, List.map_eq_nil_iff, hrepeated.eq_nil_iff_nodup, hforms.eq_nil_iff]
  refine and_congr_right fun hnodup => ?_
  have hmap : (doc.instructions.map fun ix => Text.upperCamelCase ix.name)
      = (doc.instructions.map Instruction.name).map Text.upperCamelCase := by
    rw [List.map_map]
    rfl
  rw [hmap, List.nodup_map_iff_inj_on hnodup]
  simp only [List.forall_mem_map]
  constructor
  · intro h a ha b hb hform
    by_contra hne
    exact h _ ⟨a, ha, b, hb, hne, hform, rfl⟩
  · rintro h form ⟨a, ha, b, hb, hne, hform, hform'⟩
    exact hne (h a ha b hb (hform.trans hform'.symm))

/-- There is nothing to report exactly of a well formed document. -/
theorem isEmpty_iff (h : p.Reports doc) : p.isEmpty = true ↔ doc.WellFormed := by
  rw [Problems.isEmpty_iff, h.notResolved_eq_nil, h.duplicateTypes.eq_nil_iff_nodup, h.invalidNames_eq_nil,
    h.discriminators_eq_nil, h.duplicateInstructions_eq_nil, h.missingTypes_eq_nil]
  constructor
  · rintro ⟨hdefined, hdistinct, hspelled, ⟨haccounts, hevents, hinstructions⟩, ⟨hnames, hforms⟩, hfilled⟩
    exact ⟨hfilled, hdefined, hdistinct, hspelled, haccounts, hevents, hinstructions, hnames, hforms⟩
  · intro hdoc
    exact ⟨hdoc.defined, hdoc.types_distinct, hdoc.types_spelled,
      ⟨hdoc.accounts_sized, hdoc.events_sized, hdoc.instructions_sized⟩,
      ⟨hdoc.instructions_distinct, hdoc.instructions_apart⟩, hdoc.filled⟩

end Problems.Reports

/-- A document is accepted exactly if it is well formed, and is refused with all its problems otherwise. -/
theorem Document.validate_exact (doc : Document) :
    (doc.validate = .ok () ↔ doc.WellFormed)
      ∧ (¬ doc.WellFormed → ∃ p, doc.validate = .error p ∧ p.Reports doc) := by
  have hempty := doc.problems_reports.isEmpty_iff
  unfold validate
  dsimp only
  constructor
  · rw [← hempty]
    split
    · next h => exact ⟨fun _ => h, fun _ => rfl⟩
    · next h => exact ⟨fun heq => (nomatch heq), fun h' => absurd h' h⟩
  · intro h
    rw [← hempty] at h
    exact ⟨doc.problems, if_neg h, doc.problems_reports⟩

/-- No problem hides another. -/
theorem Document.validate_exact_at_once :
    let record (name : String) (ty : Ty) : TypeDef := ⟨name, [], .borsh, none, [], .aliasOf ty⟩
    let doc : Document := { ofInstructions ["go", "a_b", "go", "aB"] with
      types := [record "A" (.vec none), record "a b" (.prim .bool), record "A" (.defined "B" [])]
      accounts := [⟨"A", []⟩, ⟨"C", [1]⟩] }
    let p : Problems := ⟨["B", "C"], ["A"], ["a b"], [⟨.account, "C", 1⟩],
      ["go", "aB / a_b (all normalize to AB)"], ["/idl/types/[0]/alias/vec"]⟩
    ¬ doc.WellFormed ∧ doc.validate = .error p ∧ p.Reports doc := by
  intro record doc p
  have hdoc : ¬ doc.WellFormed := fun h => h.filled [.key "types", .index 0, .key "alias", .key "vec"] rfl
  obtain ⟨p', herror, hreports⟩ := doc.validate_exact.2 hdoc
  have hproblems : doc.problems = p := by decide +kernel
  have hp : p' = p := by
    unfold validate at herror
    rw [hproblems, if_neg (by decide)] at herror
    exact (Except.error.inj herror).symm
  rw [hp] at herror hreports
  exact ⟨hdoc, herror, hreports⟩

end WireSchema.Schema
