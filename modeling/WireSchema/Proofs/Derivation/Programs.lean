import WireSchema.Proofs.Derivation.Requests

/-!
# The requests of a program

A program asks for all definitions without generics, and then for the arguments
and the results of its instructions in turn. So its layouts are handed out after
requests like any others.
-/

namespace WireSchema

set_option autoImplicit false

open Schema Registry WireSchema.Derivation DerivationState

/-- A run of `d` that succeeds leaves what the requests leave. -/
def Derivation.Asks (registry : Registry) {α : Type} (d : Derivation α) (requests : List Request) : Prop :=
  ∀ s a t, d.run s = (.ok a, t) → registry.afterFrom s requests = t

namespace Derivation

section Asks

variable {registry : Registry} {α β : Type} {d : Derivation α} {f : α → Derivation β}
  {xs ys : List Request}

theorem asks_pure (a : α) : Asks registry (pure a) [] := by
  intro s b t h
  obtain ⟨-, rfl⟩ : a = b ∧ s = t := by simpa using h
  rfl

theorem Asks.bind (hd : Asks registry d xs) (hf : ∀ a, Asks registry (f a) ys) :
    Asks registry (d >>= f) (xs ++ ys) := by
  intro s b u h
  obtain ⟨a, t, hrun, h⟩ := Step.ok_of_run_bind h
  rw [Registry.afterFrom, List.foldl_append]
  have ht : registry.afterFrom s xs = t := hd s a t hrun
  have hu : registry.afterFrom t ys = u := hf a t b u h
  rw [← hu, ← ht]
  rfl

theorem asks_lift (e : Except DerivationError α) : Asks registry (liftM e : Derivation α) [] := by
  intro s a t h
  cases e with
  | error e => cases h
  | ok b =>
    cases h
    rfl

theorem asks_request (request : Request) : Asks registry (request.derive registry) [request] := by
  intro s a t h
  rw [Registry.afterFrom, List.foldl_cons, h]
  rfl

theorem asks_of_drop {request : Request}
    (h : request.derive registry = do
      let _ ← d
      return ()) : Asks registry d [request] := by
  intro s a t hrun
  have hdrop : (request.derive registry).run s = (.ok (), t) := by
    rw [h, Step.run_bind_ok hrun]
    rfl
  exact asks_request request s () t hdrop

end Asks

end Derivation

def Schema.Instruction.types (ix : Instruction) : List Ty :=
  ix.args.map Field.ty ++ ix.returns.toList

/-- Every type has a codec where no generics are bound. -/
def Registry.Resolved (registry : Registry) (tys : List Ty) : Prop :=
  ∀ ty ∈ tys, ∃ codec, ty.resolve registry .none = some codec

theorem Registry.resolved_definitions (registry : Registry) (hdistinct : registry.Distinct) :
    registry.Resolved (Request.definitions.roots registry) := by
  intro ty hty
  obtain ⟨d, hd, rfl⟩ := List.mem_map.mp hty
  obtain ⟨hd, hparams⟩ : d ∈ registry.defs ∧ d.params = [] := by simpa using hd
  exact ⟨_, by rw [resolve_defined, instance?_plain hdistinct hd hparams]; rfl⟩

namespace Program

/-- The types outside of definitions, and the definitions without generics. -/
def roots (registry : Registry) (doc : Document) : List Ty :=
  Request.definitions.roots registry ++ doc.instructions.flatMap Instruction.types

def requests (ix : Instruction) : List Request :=
  .fields ix.args s!"instructions.{ix.name}"
    :: (ix.returns.map fun ty => .codec (some ty) s!"instructions.{ix.name}.returns").toList

section Instructions

variable {registry : Registry} {G : Bindings → Ty → Prop}

theorem asks_instructionEntry (ix : Instruction) :
    Asks registry (instructionEntry registry ix) (requests ix) := by
  have hfields : Asks registry (registry.fields ix.args s!"instructions.{ix.name}")
      [.fields ix.args s!"instructions.{ix.name}"] := asks_of_drop rfl
  unfold instructionEntry requests
  refine hfields.bind fun args => ?_
  cases ix.returns with
  | none => exact (asks_pure none).bind fun _ => (asks_lift _).bind fun _ => asks_pure _
  | some ty =>
    have hcodec : Asks registry (registry.codec (some ty) s!"instructions.{ix.name}.returns")
        [.codec (some ty) s!"instructions.{ix.name}.returns"] := asks_of_drop rfl
    simp only [map_eq_pure_bind]
    exact (hcodec.bind fun _ => asks_pure _).bind fun _ => (asks_lift _).bind fun _ => asks_pure _

theorem asks_instructions (instructions : List Instruction) :
    Asks registry (instructions.mapM (instructionEntry registry)) (instructions.flatMap requests) := by
  induction instructions with
  | nil => exact asks_pure _
  | cons ix rest ih =>
    rw [List.mapM_cons, List.flatMap_cons]
    refine (asks_instructionEntry ix).bind fun entry => ?_
    rw [← List.append_nil (rest.flatMap requests)]
    exact ih.bind fun entries => asks_pure _

theorem meets_lift {α : Type} (e : Except DerivationError α) :
    Meets registry G True (liftM e : Derivation α) (fun _ => True) [] := by
  cases e with
  | error e => exact meets_throw (.inr trivial)
  | ok a => exact meets_pure trivial

theorem meets_instructionEntry (hclosed : registry.Closed G) {ix : Instruction}
    (hG : ∀ ty ∈ ix.types, G .none ty) :
    Meets registry G True (instructionEntry registry ix) (fun _ => registry.Resolved ix.types)
      (ix.types.flatMap (registry.instances .none)) := by
  have hargs : ∀ f ∈ ix.args, G .none f.ty := fun f hf =>
    hG _ (List.mem_append_left _ (List.mem_map_of_mem hf))
  have hfields := (meets_fields hclosed hargs s!"instructions.{ix.name}").mono (C := True)
    (fun _ => trivial) (fun _ => id) (List.Subset.refl _)
  unfold instructionEntry
  rw [Instruction.types] at hG ⊢
  rw [List.flatMap_append]
  refine hfields.bind fun codecs hcodecs => ?_
  have hresolved : registry.Resolved (ix.args.map Field.ty) := fun ty hty =>
    codec_of_fieldCodecs? hcodecs (by simpa [Fields.entries, Function.comp_def] using hty)
  cases hreturns : ix.returns with
  | none =>
    refine (meets_pure (Q := fun _ => True) trivial).bind fun _ _ => ?_
    refine (meets_lift _).bind fun _ _ => meets_pure ?_
    simpa using hresolved
  | some ty =>
    have hty : G .none ty := hG ty (by simp [hreturns])
    have hcodec := (meets_codec hclosed hty s!"instructions.{ix.name}.returns").mono (C := True)
      (fun _ => trivial) (fun _ => id) (List.Subset.refl _)
    have hreturn := hcodec.map (g := some) (R := fun _ => ∃ codec, ty.resolve registry .none = some codec)
      fun codec h => ⟨codec, h⟩
    simp only [map_eq_pure_bind, Option.toList_some, List.flatMap_singleton]
    rw [← List.append_nil (registry.instances .none ty)]
    refine hreturn.bind fun _ hreturned => ?_
    refine (meets_lift _).bind fun _ _ => meets_pure ?_
    exact List.forall_mem_append.mpr ⟨hresolved, by simpa using hreturned⟩

theorem meets_instructions (hclosed : registry.Closed G) {instructions : List Instruction}
    (hG : ∀ ty ∈ instructions.flatMap Instruction.types, G .none ty) :
    Meets registry G True (instructions.mapM (instructionEntry registry))
      (fun _ => registry.Resolved (instructions.flatMap Instruction.types))
      ((instructions.flatMap Instruction.types).flatMap (registry.instances .none)) := by
  induction instructions with
  | nil => exact meets_pure fun _ h => by cases h
  | cons ix rest ih =>
    rw [List.flatMap_cons] at hG ⊢
    rw [List.mapM_cons, List.flatMap_append]
    obtain ⟨hix, hrest⟩ := List.forall_mem_append.mp hG
    refine (meets_instructionEntry hclosed hix).bind fun entry hentry => ?_
    refine (ih hrest).map fun entries hentries => ?_
    exact List.forall_mem_append.mpr ⟨hentry, hentries⟩

/-- All that a program asks for before its layouts are handed out. -/
theorem meets_roots (hdistinct : registry.Distinct) (doc : Document) :
    Meets registry (registry.Reaches (roots registry doc)) True (do
        registry.definitions
        doc.instructions.mapM (instructionEntry registry))
      (fun _ => registry.Resolved (roots registry doc))
      ((roots registry doc).flatMap (registry.instances .none)) := by
  have hclosed := registry.reaches_closed (roots registry doc)
  have hroots : ∀ ty ∈ roots registry doc, registry.Reaches (roots registry doc) .none ty :=
    fun ty hty => .root hty
  obtain ⟨hdefinitions, hinstructions⟩ := List.forall_mem_append.mp hroots
  have hplain := (meets_definitions hclosed hdistinct hdefinitions).mono (C := True) (fun _ => trivial)
    (fun _ => id) (List.Subset.refl _)
  unfold roots
  rw [List.flatMap_append]
  refine hplain.bind fun _ _ => ?_
  refine (meets_instructions hclosed hinstructions).mono id (fun _ h => ?_) (List.Subset.refl _)
  exact List.forall_mem_append.mpr ⟨registry.resolved_definitions hdistinct, h⟩

end Instructions

variable {doc : Document} {set : LayoutSet} {entries : List InstructionEntry}

theorem runs_of_derive (h : derive doc = .ok (set, entries)) :
    ∃ s t, (Registry.ofTypes doc.types).definitions.run .initial = (.ok (), s)
      ∧ ExceptT.run (doc.instructions.mapM (instructionEntry (Registry.ofTypes doc.types))) s
        = (.ok entries, t)
      ∧ (finishedLayouts.run t).1 = .ok set := by
  obtain ⟨u, hrun⟩ := run_of_result h
  obtain ⟨_, s, hs, hrun⟩ := Step.ok_of_run_bind hrun
  obtain ⟨found, t, ht, hrun⟩ := Step.ok_of_run_bind hrun
  obtain ⟨layouts, v, hv, hrun⟩ := Step.ok_of_run_bind hrun
  cases hrun
  exact ⟨s, t, hs, ht, congrArg Prod.fst hv⟩

/-- The layouts of a program are handed out. -/
theorem finishes_of_derive (h : derive doc = .ok (set, entries)) :
    (Registry.ofTypes doc.types).Finishes set := by
  obtain ⟨s, t, hs, ht, hset⟩ := runs_of_derive h
  refine ⟨.definitions :: doc.instructions.flatMap requests, ?_⟩
  have hs' := asks_request .definitions _ _ _ hs
  have ht' := asks_instructions doc.instructions _ _ _ ht
  rw [← hset, Registry.after, ← ht', ← hs']
  rfl

/-- All that a program has comes from its document. -/
structure Built (doc : Document) (p : Program) : Prop where
  valid : doc.validate = .ok ()
  derived : derive doc = .ok (p.layouts, p.instructions)
  accounts : doc.accounts.mapM (dataEntry p.layouts .account) = .ok p.accounts
  events : doc.events.mapM (dataEntry p.layouts .event) = .ok p.events

theorem built_of_ofDocument {p : Program} (h : ofDocument doc = .ok p) : Built doc p := by
  unfold ofDocument at h
  cases hvalid : doc.validate with
  | error problems =>
    rw [hvalid] at h
    cases h
  | ok _ =>
    cases hderive : derive doc with
    | error e =>
      rw [hvalid, hderive] at h
      cases h
    | ok result =>
      obtain ⟨layouts, entries⟩ := result
      rw [hvalid, hderive] at h
      dsimp only [Except.mapError, bind, Except.bind] at h
      cases haccounts : doc.accounts.mapM (dataEntry layouts .account) with
      | error e =>
        rw [haccounts] at h
        cases h
      | ok accounts =>
        cases hevents : doc.events.mapM (dataEntry layouts .event) with
        | error e =>
          rw [haccounts, hevents] at h
          cases h
        | ok events =>
          rw [haccounts, hevents] at h
          cases h
          exact ⟨hvalid, hderive, haccounts, hevents⟩

/-- A program is built from a document that is accepted and derived. -/
theorem derive_of_ofDocument {p : Program} (h : ofDocument doc = .ok p) :
    doc.validate = .ok () ∧ ∃ entries, derive doc = .ok (p.layouts, entries) :=
  have hbuilt := built_of_ofDocument h
  ⟨hbuilt.valid, _, hbuilt.derived⟩

theorem finishes_of_ofDocument {p : Program} (h : ofDocument doc = .ok p) :
    (Registry.ofTypes doc.types).Finishes p.layouts := by
  obtain ⟨-, entries, hderive⟩ := derive_of_ofDocument h
  exact finishes_of_derive hderive

/-- The types in a definition without generics are come to, and nothing is bound there. -/
theorem reaches_plain {registry : Registry} (hdistinct : registry.Distinct) (doc : Document) {d : TypeDef}
    (hd : d ∈ registry.defs) (hparams : d.params = []) {ty : Ty} (hty : ty ∈ d.body.types) :
    registry.Reaches (roots registry doc) .none ty := by
  have hroot : Ty.defined d.name [] ∈ roots registry doc :=
    List.mem_append_left _ (List.mem_map_of_mem (List.mem_filter.mpr ⟨hd, by simp [hparams]⟩))
  have hinstance := instance?_plain hdistinct hd hparams
  have hbody := Reaches.body (.root hroot) hinstance (by rwa [types_eq (hdistinct d hd)])
  rwa [bindings_plain hdistinct hd hparams] at hbody

end Program

end WireSchema
