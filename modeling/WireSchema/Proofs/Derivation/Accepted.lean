import WireSchema.Proofs.Derivation.Composition
import WireSchema.Proofs.Derivation.Slots

/-!
# Deriving accepted documents

A derivation only comes to types that stand at a place of the document: what a
generic is bound to was derived where the argument stood. So if validation found
a type at each place and a definition for each name, a derivation can fail only
for what validation does not look at, such as generics that are not bound.
-/

namespace WireSchema

set_option autoImplicit false

open Schema Registry WireSchema.Derivation Step

/-- The error is none that validation should have found. -/
def DerivationError.PastValidation : DerivationError → Prop
  | .undefinedType _ _ | .unresolvedType _ | .discriminatorLength _ => False
  | _ => True

theorem DerivationError.PastValidation.ne {e : DerivationError} (h : e.PastValidation) :
    (∀ name path, e ≠ .undefinedType name path) ∧ (∀ path, e ≠ .unresolvedType path)
      ∧ ∀ issue, e ≠ .discriminatorLength issue := by
  cases e <;> first | exact h.elim | simp

theorem DerivationError.IsMisuse.pastValidation {e : DerivationError} (h : e.IsMisuse) : e.PastValidation := by
  cases e <;> trivial

namespace Derivation

variable {registry : Registry} {derive : LayoutDeriver} {env : Bindings}

abbrev Safe {α : Type} (d : Derivation α) : Prop := RaisesOnly DerivationError.PastValidation d

theorem composes_safe : Composes @Safe where
  answer a := raisesOnly_pure a
  misuse he := raisesOnly_throw he.pastValidation
  sequence hd hf s e u h := by
    rcases error_of_run_bind h with hrun | ⟨a, t, hrun, h⟩
    · exact hd s e u hrun
    · exact hf a ⟨s, t, hrun⟩ t e u h

/-- Every layout of a definition is derived safely. -/
def SafeLayouts (registry : Registry) (derive : LayoutDeriver) : Prop :=
  ∀ name d, registry.get? name = some d → ∀ bindings key, Safe (derive d bindings key)

theorem safe_instantiate {d : TypeDef} {bindings : Bindings} (h : ∀ key, Safe (derive d bindings key))
    (labels : List String) : Safe (instantiate derive d bindings labels) := by
  intro s e t hrun
  cases instantiates hrun with
  | refused _ _ => trivial
  | abandoned _ _ hinside => exact h _ _ _ _ hinside

theorem not_lacks_of_fills {ty : Ty} (hty : ty.Everywhere registry.Fills) : ¬ ty.Lacks := by
  intro hlacks
  cases hlacks with
  | option tag => exact hty.option.1.1 rfl
  | vec => exact hty.vec.1.1 rfl
  | array length => exact hty.array.1.1 rfl

/-- A type at whose places everything is filled leads to nothing that is missing. -/
theorem covers_safe (hlayouts : SafeLayouts registry derive) :
    Covers @Safe registry derive env (Ty.Everywhere registry.Fills) where
  part hty hpart := hty.part hpart
  unresolved hty hlacks := absurd hlacks (not_lacks_of_fills hty)
  undefined hty hnone := by
    obtain ⟨d, hd⟩ := hty.self.2 _ rfl
    rw [hnone] at hd
    cases hd
  bound _ hd _ _ _ _ _ _ _ := safe_instantiate (hlayouts _ _ hd _) _

/-- The bodies of the definitions are filled. -/
def FilledBodies (registry : Registry) : Prop :=
  ∀ name d, registry.get? name = some d → ∀ ty ∈ d.body.types, ty.Everywhere registry.Fills

theorem safeLayouts_layoutWithin (h : FilledBodies registry) (fuel : Nat) :
    SafeLayouts registry (registry.layoutWithin fuel) := by
  induction fuel with
  | zero => exact fun _ _ _ _ _ => raisesOnly_throw trivial
  | succ fuel ih =>
    intro name d hd bindings key
    rw [layoutWithin]
    exact composes_safe.layout (fun ty hty path => composes_safe.type (covers_safe ih) (h name d hd ty hty) path) key

theorem safe_codec (h : FilledBodies registry) {ty : Ty} (hty : ty.Everywhere registry.Fills) (path : String) :
    Safe (registry.codec (some ty) path) :=
  composes_safe.type (covers_safe (safeLayouts_layoutWithin h registry.nesting)) hty path

theorem safe_definitions (h : FilledBodies registry) (hdistinct : registry.Distinct) :
    Safe registry.definitions := by
  refine composes_safe.definitions fun d hd _ => safe_instantiate ?_ []
  exact safeLayouts_layoutWithin h registry.nesting d.name d (hdistinct d hd) .none

theorem safe_finishedLayouts : Safe finishedLayouts := by
  intro s e t hrun
  rw [run_finishedLayouts] at hrun
  split at hrun
  · cases hrun
    trivial
  · cases hrun

end Derivation

namespace Schema.Document

variable {doc : Document}

theorem filledBodies_of_validate (h : doc.validate = .ok ()) : FilledBodies (Registry.ofTypes doc.types) := by
  intro name d hd
  have hmem := ((get?_ofTypes_of_nodup (nodup_of_validate h)).mp hd).1
  exact (Document.everywhere (fills_of_validate h)).2 d hmem

/-- Of an accepted document every discriminator is left out or has eight bytes. -/
theorem resolves_of_validate (h : doc.validate = .ok ()) {kind : EntityKind} {name : String}
    {supplied : List UInt8} (hmem : (kind, name, supplied) ∈ doc.entities) :
    ∃ d, Program.resolve kind name supplied = .ok d := by
  have hissues : doc.entities.filterMap discriminatorIssue? = [] :=
    congrArg Problems.discriminators (problems_of_validate h)
  have hnone := List.filterMap_eq_nil_iff.mp hissues _ hmem
  unfold Program.resolve Discriminator.resolve
  by_cases hempty : supplied = []
  · exact ⟨_, by rw [if_pos hempty]; rfl⟩
  · have hlength : supplied.length = 8 := by simpa [discriminatorIssue?, hempty] using hnone
    rw [if_neg hempty, Discriminator.ofBytes?, dif_pos hlength]
    exact ⟨_, rfl⟩

end Schema.Document

namespace Program

variable {doc : Document}

theorem safe_instructionEntry (hdoc : doc.validate = .ok ()) {ix : Instruction} (hix : ix ∈ doc.instructions) :
    Safe (instructionEntry (Registry.ofTypes doc.types) ix) := by
  have hbodies := Document.filledBodies_of_validate hdoc
  have hfilled := (Document.everywhere (Document.fills_of_validate hdoc)).1 ix hix
  have hentity : (EntityKind.instruction, ix.name, ix.discriminator) ∈ doc.entities :=
    List.mem_append_right _ (List.mem_map_of_mem hix)
  obtain ⟨d, hd⟩ := Document.resolves_of_validate hdoc hentity
  have hentry : ∀ (args : List FieldCodec) (returns : Option Codec), Safe (do
      let d ← (resolve .instruction ix.name ix.discriminator : Except DerivationError _)
      return (⟨ix.name, d, args, returns⟩ : InstructionEntry)) := by
    intro args returns
    rw [hd]
    exact raisesOnly_pure _
  have hargs : ∀ entry ∈ (Fields.named ix.args).entries, ∀ path,
      Safe ((Registry.ofTypes doc.types).codec (some entry.2) path) := by
    intro entry hentry path
    obtain ⟨f, hf, rfl⟩ := List.mem_map.mp hentry
    exact safe_codec hbodies (hfilled f.ty (List.mem_append_left _ (List.mem_map_of_mem hf))) path
  unfold instructionEntry
  refine (composes_safe.fields hargs _).bind fun args => ?_
  cases hreturns : ix.returns with
  | none => exact hentry args none
  | some ty =>
    have hty : ty.Everywhere (Registry.ofTypes doc.types).Fills :=
      hfilled ty (List.mem_append_right _ (by simp [hreturns]))
    simp only [map_eq_pure_bind, bind_assoc, pure_bind]
    exact (safe_codec hbodies hty _).bind fun codec => hentry args (some codec)

theorem safe_derive (hdoc : doc.validate = .ok ()) {e : DerivationError} (h : derive doc = .error e) :
    e.PastValidation := by
  have hdefinitions := safe_definitions (Document.filledBodies_of_validate hdoc) (distinct_ofTypes doc.types)
  have hinstructions : Safe (doc.instructions.mapM (instructionEntry (Registry.ofTypes doc.types))) :=
    raisesOnly_mapM fun ix hix => safe_instructionEntry hdoc hix
  have hrun : Safe (do
      (Registry.ofTypes doc.types).definitions
      let instructions ← doc.instructions.mapM (instructionEntry (Registry.ofTypes doc.types))
      return (← finishedLayouts, instructions)) :=
    hdefinitions.bind fun _ => hinstructions.bind fun entries => safe_finishedLayouts.map (·, entries)
  exact hrun .initial e _ (Prod.ext h rfl)

theorem safe_dataEntries (hdoc : doc.validate = .ok ()) {layouts : LayoutSet} {kind : EntityKind}
    {entities : List Entity} (hmem : ∀ e ∈ entities, (kind, e.name, e.discriminator) ∈ doc.entities)
    {error : DerivationError} (h : entities.mapM (dataEntry layouts kind) = .error error) :
    error.PastValidation := by
  induction entities with
  | nil => cases h
  | cons e rest ih =>
    obtain ⟨he, hrest⟩ := List.forall_mem_cons.mp hmem
    rw [List.mapM_cons] at h
    rcases error_of_bind h with h | ⟨found, -, h⟩
    · obtain ⟨d, hd⟩ := Document.resolves_of_validate hdoc he
      rw [dataEntry, hd] at h
      split at h
      · cases h
      · cases h
        trivial
    · rcases error_of_bind h with h | ⟨others, -, h⟩
      · exact ih hrest h
      · cases h

/-- Where a program can fail to be built. -/
theorem error_of_ofDocument (hdoc : doc.validate = .ok ()) {failure : Failure}
    (h : ofDocument doc = .error failure) : ∃ e, .derivation e = failure ∧ (derive doc = .error e
      ∨ ∃ layouts, doc.accounts.mapM (dataEntry layouts .account) = .error e
        ∨ doc.events.mapM (dataEntry layouts .event) = .error e) := by
  rw [ofDocument, hdoc] at h
  rcases error_of_bind h with h | ⟨-, -, h⟩
  · cases h
  rcases error_of_bind h with h | ⟨⟨layouts, entries⟩, -, h⟩
  · obtain ⟨e, hderive, he⟩ := error_of_mapError h
    exact ⟨e, he, .inl hderive⟩
  rcases error_of_bind h with h | ⟨accounts, -, h⟩
  · obtain ⟨e, haccounts, he⟩ := error_of_mapError h
    exact ⟨e, he, .inr ⟨layouts, .inl haccounts⟩⟩
  rcases error_of_bind h with h | ⟨events, -, h⟩
  · obtain ⟨e, hevents, he⟩ := error_of_mapError h
    exact ⟨e, he, .inr ⟨layouts, .inr hevents⟩⟩
  · cases h

/-- An accepted document has a program, or its derivation fails for what validation does not look at. -/
theorem ofDocument_of_validate (hdoc : doc.validate = .ok ()) :
    (∃ p, ofDocument doc = .ok p) ∨ ∃ e, ofDocument doc = .error (.derivation e)
      ∧ (∀ name path, e ≠ .undefinedType name path) ∧ (∀ path, e ≠ .unresolvedType path)
      ∧ ∀ issue, e ≠ .discriminatorLength issue := by
  cases hp : ofDocument doc with
  | ok p => exact .inl ⟨p, rfl⟩
  | error failure =>
    obtain ⟨e, rfl, he⟩ := error_of_ofDocument hdoc hp
    have hpast : e.PastValidation := by
      rcases he with he | ⟨layouts, he | he⟩
      · exact safe_derive hdoc he
      · refine safe_dataEntries hdoc (fun a ha => ?_) he
        exact List.mem_append_left _ (List.mem_append_left _ (List.mem_map_of_mem ha))
      · refine safe_dataEntries hdoc (fun a ha => ?_) he
        exact List.mem_append_left _ (List.mem_append_right _ (List.mem_map_of_mem ha))
    exact .inr ⟨e, rfl, hpast.ne⟩

/-- The argument of a generic names a constant that is no number, which validation does not look at. -/
theorem ofDocument_of_validate_nested :
    let row : TypeDef := .record "Row" [.type "T", .const "N" "usize"]
      [("cells", .array (some (.generic "T")) (.generic "N"))]
    let board : TypeDef := .record "Board" []
      [("rows", .vec (some (.defined "Row" [.type (.option .byte (some (.defined "Board" []))), .const "many"])))]
    let doc : Document := { Document.ofTypes [row, board] with accounts := [⟨"Board", []⟩] }
    doc.validate = .ok () ∧ ¬ (∃ p, ofDocument doc = .ok p)
      ∧ ∃ e, ofDocument doc = .error (.derivation e) ∧ ∀ name path, e ≠ .undefinedType name path := by
  intro row board doc
  have hdoc : doc.validate = .ok () := Document.validate_of_isEmpty (by decide +kernel)
  have hnone : ¬ ∃ p, ofDocument doc = .ok p := by
    intro ⟨p, hp⟩
    have hfails : (ofDocument doc).isOk = false := by decide +kernel
    rw [hp] at hfails
    cases hfails
  obtain ⟨e, he, hundefined, -⟩ := (ofDocument_of_validate hdoc).resolve_left hnone
  exact ⟨hdoc, hnone, e, he, hundefined⟩

end Program

end WireSchema
