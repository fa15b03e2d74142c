import WireSchema.Proofs.Derivation.Derive
import WireSchema.Proofs.Derivation.Registry
import WireSchema.Program.Basic

/-!
# Asking for layouts

Layouts are derived on request: those of all definitions without generics, those
of one type, those of some fields. Requests come in any order, and one that
fails does not keep others from being made. `Finishes` says that a set of
layouts is what is handed out after some requests.
-/

namespace WireSchema

set_option autoImplicit false

open Schema Registry WireSchema.Derivation DerivationState

inductive Request where
  | definitions
  | codec (ty : Option Ty) (path : String)
  | fields (listed : List Field) (path : String)

namespace Request

def derive (registry : Registry) : Request → Derivation Unit
  | .definitions => registry.definitions
  | .codec ty path => do
    let _ ← registry.codec ty path
    return ()
  | .fields listed path => do
    let _ ← registry.fields listed path
    return ()

/-- The types that a request is about. -/
def roots (registry : Registry) : Request → List Ty
  | .definitions => (registry.defs.filter (·.params.isEmpty)).map fun d => .defined d.name []
  | .codec ty _ => ty.toList
  | .fields listed _ => listed.map Field.ty

end Request

namespace Registry

/-- What is there after some requests, whatever came of each. -/
def afterFrom (registry : Registry) (s : DerivationState) (requests : List Request) : DerivationState :=
  requests.foldl (fun s request => ((request.derive registry).run s).2) s

def after (registry : Registry) (requests : List Request) : DerivationState :=
  registry.afterFrom .initial requests

/-- The layouts are handed out after some requests. -/
def Finishes (registry : Registry) (set : LayoutSet) : Prop :=
  ∃ requests, (finishedLayouts.run (registry.after requests)).1 = .ok set

end Registry

section Roots

variable {registry : Registry} {G : Bindings → Ty → Prop}

theorem meets_codec (hclosed : registry.Closed G) {ty : Ty} (h : G .none ty) (path : String) :
    Meets registry G (registry.Broken G) (registry.codec (some ty) path)
      (fun codec => ty.resolve registry .none = some codec) (registry.instances .none ty) :=
  derives_type hclosed (derivesLayouts_deriveLayout hclosed) ty h path

theorem meets_fields (hclosed : registry.Closed G) {fields : List Field}
    (h : ∀ f ∈ fields, G .none f.ty) (path : String) :
    Meets registry G (registry.Broken G) (registry.fields fields path)
      (fun codecs => fieldCodecs? (Ty.resolve registry .none) (Fields.named fields).entries = some codecs)
      ((fields.map Field.ty).flatMap (registry.instances .none)) := by
  have hentries : (Fields.named fields).entries.map Prod.snd = fields.map Field.ty := by
    simp [Fields.entries, Function.comp_def]
  rw [← hentries]
  refine meets_deriveFields (fun entry hentry path => ?_) path
  obtain ⟨f, hf, rfl⟩ := List.mem_map.mp hentry
  exact meets_codec hclosed (h f hf) path

theorem instance?_plain (hdistinct : registry.Distinct) {d : TypeDef} (hd : d ∈ registry.defs)
    (hparams : d.params = []) :
    registry.instance? .none (.defined d.name []) = some ⟨d.name, []⟩ := by
  simp [instance?, hdistinct d hd, hparams, resolveArgs]

theorem bindings_plain (hdistinct : registry.Distinct) {d : TypeDef} (hd : d ∈ registry.defs)
    (hparams : d.params = []) : registry.bindings ⟨d.name, []⟩ = .none := by
  simp [Registry.bindings, hdistinct d hd, hparams, Bindings.bind]

theorem meets_definitions (hclosed : registry.Closed G) (hdistinct : registry.Distinct)
    (h : ∀ ty ∈ Request.definitions.roots registry, G .none ty) :
    Meets registry G (registry.Broken G) registry.definitions (fun _ => True)
      ((Request.definitions.roots registry).flatMap (registry.instances .none)) := by
  unfold definitions
  rw [Request.roots] at h ⊢
  have hmem : ∀ d ∈ registry.defs.filter (·.params.isEmpty), d ∈ registry.defs ∧ d.params = [] :=
    fun d hd => by simpa using hd
  generalize registry.defs.filter (·.params.isEmpty) = ds at h hmem
  induction ds with
  | nil =>
    show Meets registry G _ (pure ()) _ []
    exact meets_pure trivial
  | cons d ds ih =>
    obtain ⟨hd, hparams⟩ := hmem d List.mem_cons_self
    have hG : G .none (.defined d.name []) := h _ List.mem_cons_self
    have hname := instance?_plain hdistinct hd hparams
    have hi := meets_instantiate (i := ⟨d.name, []⟩) ⟨_, _, hG, hname⟩ (hdistinct d hd)
      (derivesLayouts_deriveLayout hclosed _ _ ⟨_, _, hG, hname⟩ (hdistinct d hd))
    rw [bindings_plain hdistinct hd hparams] at hi
    rw [List.map_cons, List.flatMap_cons, instances_defined, hname]
    exact (hi.map (R := fun _ => True) fun _ _ => trivial).bind fun _ _ =>
      ih (fun ty hty => h ty (List.mem_cons_of_mem _ hty)) fun d hd => hmem d (List.mem_cons_of_mem _ hd)

end Roots

section After

theorem Registry.closed_true (registry : Registry) : registry.Closed fun _ _ => True :=
  ⟨fun _ _ => trivial, fun _ _ _ => trivial⟩

variable {registry : Registry}

theorem moves_request (hdistinct : registry.Distinct) (request : Request) (s : DerivationState) :
    registry.Adds (fun _ _ => True) (fun _ => True) s ((request.derive registry).run s).2 := by
  cases request with
  | definitions => exact ((meets_definitions registry.closed_true hdistinct fun _ _ => trivial).moves s).2
  | codec ty path =>
    cases ty with
    | none => exact .of_layouts_eq rfl
    | some ty =>
      have hty : Meets registry (fun _ _ => True) _ (registry.codec (some ty) path) _ _ :=
        meets_codec registry.closed_true trivial path
      have h := hty.map (g := fun _ => ()) (R := fun _ => True) fun _ _ => trivial
      exact (h.moves s).2
  | fields listed path =>
    have hfields : Meets registry (fun _ _ => True) _ (registry.fields listed path) _ _ :=
      meets_fields registry.closed_true (fun _ _ => trivial) path
    have h := hfields.map (g := fun _ => ()) (R := fun _ => True) fun _ _ => trivial
    exact (h.moves s).2

theorem adds_after (hdistinct : registry.Distinct) (requests : List Request) :
    registry.Adds (fun _ _ => True) (fun _ => True) .initial (registry.after requests) := by
  unfold Registry.after Registry.afterFrom
  generalize DerivationState.initial = s
  induction requests generalizing s with
  | nil => exact .of_layouts_eq rfl
  | cons request rest ih => exact (moves_request hdistinct request s).trans (fun _ => id) (ih _)

/-- Whatever was asked for, each layout is the layout of an instance with its key. -/
theorem layout?_of_after (hdistinct : registry.Distinct) {requests : List Request} {key : String}
    {layout : Layout} (h : (registry.after requests).layouts.get? key = some layout) :
    ∃ i : Instance, i.key = key ∧ registry.layout? i = some layout := by
  rcases adds_after hdistinct requests key layout h with h | ⟨i, -, hkey, hlayout, -⟩
  · cases h
  · exact ⟨i, hkey, hlayout⟩

theorem run_finishedLayouts (s : DerivationState) :
    finishedLayouts.run s = (match s.layouts.selfContaining? with
      | some key => .error (.recursiveType key)
      | none => .ok s.layouts, s) := by
  simp only [finishedLayouts, Step.run_get_bind]
  cases s.layouts.selfContaining? <;> rfl

theorem ok_of_finishedLayouts {s : DerivationState} {set : LayoutSet}
    (h : (finishedLayouts.run s).1 = .ok set) : s.layouts = set := by
  rw [run_finishedLayouts] at h
  split at h
  · cases h
  · exact Except.ok.inj h

theorem Registry.Finishes.layout? (hdistinct : registry.Distinct) {set : LayoutSet}
    (h : registry.Finishes set) {key : String} {layout : Layout} (hkey : set.get? key = some layout) :
    ∃ i : Instance, i.key = key ∧ registry.layout? i = some layout := by
  obtain ⟨requests, hrun⟩ := h
  rw [← ok_of_finishedLayouts hrun] at hkey
  exact layout?_of_after hdistinct hkey

end After

end WireSchema
