import WireSchema.Schema.Discriminator
import WireSchema.Schema.Walk

/-!
# Checking a whole document

Every problem is collected, none hides another. Lists of names are sorted and
hold a name once; paths and discriminators come in the order of the document.
Duplicate fields or variants of one definition are no problem here.
-/

namespace WireSchema.Schema

set_option autoImplicit false

structure Problems where
  /-- Names of types, accounts and events without a definition. -/
  notResolved : List String
  /-- Names of two or more definitions. -/
  duplicateTypes : List String
  invalidNames : List String
  discriminators : List DiscriminatorIssue
  /-- Instruction names that occur twice, and after those the groups of names with one camel case. -/
  duplicateInstructions : List String
  /-- Places where the document has `null` for a type. -/
  missingTypes : List String
deriving DecidableEq, Repr

/-- The problems of each sort, in the order of a report. -/
def Problems.sections (p : Problems) : List (List String) :=
  [p.notResolved, p.duplicateTypes, p.invalidNames, p.discriminators.map DiscriminatorIssue.message,
    p.duplicateInstructions, p.missingTypes]

def Problems.count (p : Problems) : Nat :=
  p.sections.flatten.length

def Problems.isEmpty (p : Problems) : Bool :=
  p.sections.all List.isEmpty

/-- The labels of the sections in an error message. -/
def sectionLabels : List String :=
  ["not resolved types", "duplicate defined type names", "invalid type names",
    "invalid discriminators", "duplicate instruction names", "missing types"]

def Problems.message (p : Problems) : String :=
  let lines := (sectionLabels.zip p.sections).filterMap fun (label, entries) =>
    if entries.isEmpty then none else some ("  " ++ label ++ ": " ++ ", ".intercalate entries)
  "\n".intercalate lines

/-- Names in ascending order, each once. -/
def sortedNames (names : List String) : List String :=
  (Keyed.ofList (names.map fun name => (name, ()))).map Prod.fst

/-- The names that occur more than once, in ascending order. -/
def repeatedNames (names : List String) : List String :=
  (sortedNames names).filter fun name => 1 < names.count name

/-- Letters, digits, underscores and colons of ASCII, at least one of them. -/
def isTypeName (name : String) : Bool :=
  name ≠ "" && name.toList.all fun c => c.isAlphanum || c = '_' || c = ':'

def definedName? : Option Ty → Option String
  | some (.defined name _) => some name
  | _ => none

/-- Every name that needs a definition. -/
def Document.wantedNames (doc : Document) : List String :=
  doc.places.filterMap (fun (_, slot) => definedName? slot) ++ doc.accounts.map Entity.name
    ++ doc.events.map Entity.name

/-- Everything that has a discriminator: accounts, then events, then instructions. -/
def Document.entities (doc : Document) : List (EntityKind × String × List UInt8) :=
  doc.accounts.map (fun a => (.account, a.name, a.discriminator))
    ++ doc.events.map (fun e => (.event, e.name, e.discriminator))
    ++ doc.instructions.map (fun ix => (.instruction, ix.name, ix.discriminator))

def discriminatorIssue? : EntityKind × String × List UInt8 → Option DiscriminatorIssue
  | (kind, name, bytes) =>
    if bytes = [] ∨ bytes.length = 8 then none else some ⟨kind, name, bytes.length⟩

/-- The groups of different names with one camel case, each as one entry. -/
def camelCaseClashes (names : List String) : List String :=
  (sortedNames (names.map Text.upperCamelCase)).filterMap fun form =>
    let group := sortedNames (names.filter fun name => Text.upperCamelCase name = form)
    if 1 < group.length then some (" / ".intercalate group ++ s!" (all normalize to {form})") else none

def Document.problems (doc : Document) : Problems :=
  let defined := doc.types.map TypeDef.name
  let called := doc.instructions.map Instruction.name
  { notResolved := (sortedNames doc.wantedNames).filter fun name => !defined.contains name
    duplicateTypes := repeatedNames defined
    invalidNames := (sortedNames defined).filter fun name => !isTypeName name
    discriminators := doc.entities.filterMap discriminatorIssue?
    duplicateInstructions := repeatedNames called ++ camelCaseClashes called
    missingTypes := doc.places.filterMap fun (path, slot) =>
      if slot.isNone then some path.text else none }

/-- A document is accepted if it has no problem. -/
def Document.validate (doc : Document) : Except Problems Unit :=
  let problems := doc.problems
  if problems.isEmpty then .ok () else .error problems

end WireSchema.Schema
