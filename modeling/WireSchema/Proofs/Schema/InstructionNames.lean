import WireSchema.Proofs.Schema.Validation
import WireSchema.Proofs.Text.Words

/-!
# What keeps instructions apart

An accepted document names each instruction once, also in camel case. The texts
that are hashed have the names in snake case, and two of them differ if the
words of the names are regular. That their hashes differ is not claimed, and
names with other words can have one text: see the last theorem.
-/

namespace WireSchema.Schema

set_option autoImplicit false

open Text

theorem Discriminator.preimage_inj {namespaceName a b : String}
    (h : preimage namespaceName a = preimage namespaceName b) : a = b := by
  simpa [preimage, toString] using h

namespace Document

variable {doc : Document}

theorem camelCaseClashes_of_validate (h : doc.validate = .ok ()) :
    camelCaseClashes (doc.instructions.map Instruction.name) = [] := by
  have hnames : repeatedNames (doc.instructions.map Instruction.name)
      ++ camelCaseClashes (doc.instructions.map Instruction.name) = [] :=
    congrArg Problems.duplicateInstructions (problems_of_validate h)
  exact (List.append_eq_nil_iff.mp hnames).2

variable {i j : Nat} {a b : Instruction}

theorem eq_of_instruction_name (h : doc.validate = .ok ()) (ha : doc.instructions[i]? = some a)
    (hb : doc.instructions[j]? = some b) (hname : a.name = b.name) : i = j := by
  have hnodup := nodup_instructions_of_validate h
  have ha' : (doc.instructions.map Instruction.name)[i]? = some a.name := by simp [ha]
  have hb' : (doc.instructions.map Instruction.name)[j]? = some a.name := by simp [hb, hname]
  have hi := (List.getElem?_eq_some_iff.mp ha').1
  exact (List.getElem?_inj hi hnodup).mp (ha'.trans hb'.symm)

/-- Two instructions with regular words have different names in snake case, and different texts to hash. -/
theorem instruction_preimage_ne (h : doc.validate = .ok ()) (hij : i ≠ j)
    (ha : doc.instructions[i]? = some a) (hb : doc.instructions[j]? = some b)
    (hwords : (words a.name.toList).all isRegular = true) (hwords' : (words b.name.toList).all isRegular = true) :
    snakeCase a.name ≠ snakeCase b.name
      ∧ Discriminator.preimage EntityKind.instruction.namespaceName (Discriminator.hashedName .instruction a.name)
        ≠ Discriminator.preimage EntityKind.instruction.namespaceName
          (Discriminator.hashedName .instruction b.name) := by
  have hsnake : snakeCase a.name ≠ snakeCase b.name := by
    intro heq
    have hmem : a.name ∈ doc.instructions.map Instruction.name :=
      List.mem_map_of_mem (List.mem_of_getElem? ha)
    have hmem' : b.name ∈ doc.instructions.map Instruction.name :=
      List.mem_map_of_mem (List.mem_of_getElem? hb)
    have hname := eq_of_upperCamelCase (camelCaseClashes_of_validate h) hmem hmem'
      (upperCamelCase_eq hwords hwords' heq)
    exact hij (eq_of_instruction_name h ha hb hname)
  exact ⟨hsnake, fun heq => hsnake (Discriminator.preimage_inj heq)⟩

/-- A document of instructions without accounts, arguments and results. -/
def ofInstructions (names : List String) : Document :=
  { ofTypes [] with instructions := names.map fun name => ⟨name, [], [], [], [], none⟩ }

/-- The dot of a capital `İ` stays in lower case. -/
theorem instruction_preimage_ne_dotted :
    let doc := ofInstructions ["İnitPool", "init_pool"]
    doc.validate = .ok () ∧ ∃ a b, doc.instructions = [a, b]
      ∧ snakeCase a.name ≠ snakeCase b.name
      ∧ Discriminator.preimage EntityKind.instruction.namespaceName (Discriminator.hashedName .instruction a.name)
        ≠ Discriminator.preimage EntityKind.instruction.namespaceName
          (Discriminator.hashedName .instruction b.name) := by
  intro doc
  have hdoc : doc.validate = .ok () := validate_of_isEmpty (by decide +kernel)
  let a : Instruction := ⟨"İnitPool", [], [], [], [], none⟩
  let b : Instruction := ⟨"init_pool", [], [], [], [], none⟩
  have ha : doc.instructions[0]? = some a := rfl
  have hb : doc.instructions[1]? = some b := rfl
  have hne : (0 : Nat) ≠ 1 := Nat.zero_ne_one
  have hwords : (words a.name.toList).all isRegular = true := by decide +kernel
  have hwords' : (words b.name.toList).all isRegular = true := by decide +kernel
  exact ⟨hdoc, a, b, rfl, instruction_preimage_ne hdoc hne ha hb hwords hwords'⟩

/-- The sign for kelvin and the letter `K` have one lower case form, and so have the two sigmas at the end of a word. -/
theorem instruction_preimages_meet :
    let doc := ofInstructions ["kelvin", "\u212Aelvin", "XYΣ", "xyσ"]
    doc.validate = .ok ()
      ∧ doc.instructions.map (snakeCase ·.name) = ["kelvin", "kelvin", "xyσ", "xyσ"]
      ∧ doc.instructions.map (fun ix => Discriminator.preimage EntityKind.instruction.namespaceName
          (Discriminator.hashedName .instruction ix.name))
        = ["global:kelvin", "global:kelvin", "global:xyσ", "global:xyσ"] := by
  intro doc
  exact ⟨validate_of_isEmpty (by decide +kernel), by decide +kernel, by decide +kernel⟩

end Document

end WireSchema.Schema
