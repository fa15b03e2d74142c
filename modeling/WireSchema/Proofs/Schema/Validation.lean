import WireSchema.Proofs.Schema.Names

/-!
# What an accepted document keeps to

No two definitions have one name, no two instructions have one name, and every
name of a definition is made of letters, digits, underscores and colons. The
other checks are not looked at here.
-/

namespace WireSchema.Schema

set_option autoImplicit false

theorem Problems.isEmpty_iff {p : Problems} : p.isEmpty = true ↔ p.notResolved = [] ∧ p.duplicateTypes = []
    ∧ p.invalidNames = [] ∧ p.discriminators = [] ∧ p.duplicateInstructions = [] ∧ p.missingTypes = [] := by
  simp [isEmpty, sections]

theorem Problems.eq_of_isEmpty {p : Problems} (h : p.isEmpty = true) : p = ⟨[], [], [], [], [], []⟩ := by
  obtain ⟨⟩ := p
  obtain ⟨rfl, rfl, rfl, rfl, rfl, rfl⟩ := isEmpty_iff.mp h
  rfl

namespace Document

variable {doc : Document}

theorem validate_of_isEmpty (h : doc.problems.isEmpty = true) : doc.validate = .ok () :=
  if_pos h

theorem problems_of_validate (h : doc.validate = .ok ()) : doc.problems = ⟨[], [], [], [], [], []⟩ := by
  unfold validate at h
  dsimp only at h
  split at h
  · next hempty => exact Problems.eq_of_isEmpty hempty
  · cases h

theorem nodup_of_validate (h : doc.validate = .ok ()) : (doc.types.map TypeDef.name).Nodup :=
  nodup_of_repeatedNames (congrArg Problems.duplicateTypes (problems_of_validate h))

theorem nodup_instructions_of_validate (h : doc.validate = .ok ()) :
    (doc.instructions.map Instruction.name).Nodup := by
  have hnames : repeatedNames (doc.instructions.map Instruction.name)
      ++ camelCaseClashes (doc.instructions.map Instruction.name) = [] :=
    congrArg Problems.duplicateInstructions (problems_of_validate h)
  exact nodup_of_repeatedNames (List.append_eq_nil_iff.mp hnames).1

theorem isTypeName_of_validate (h : doc.validate = .ok ()) {d : TypeDef} (hd : d ∈ doc.types) :
    isTypeName d.name = true := by
  have hnames : (sortedNames (doc.types.map TypeDef.name)).filter (fun name => !isTypeName name) = [] :=
    congrArg Problems.invalidNames (problems_of_validate h)
  have hname := List.filter_eq_nil_iff.mp hnames d.name (mem_sortedNames (List.mem_map_of_mem hd))
  simpa using hname

end Document

/-- A document of these definitions and nothing else. -/
def Document.ofTypes (types : List TypeDef) : Document where
  address := none
  metadata := ⟨"", "", "", none, none, [], none, none⟩
  docs := []
  instructions := []
  accounts := []
  events := []
  errors := []
  types := types
  constants := []

def TypeDef.record (name : String) (params : List Param) (fields : List (String × Ty)) : TypeDef :=
  ⟨name, [], .borsh, none, params, .struct (some (.named (fields.map fun (name, ty) => ⟨name, [], ty⟩)))⟩

end WireSchema.Schema
