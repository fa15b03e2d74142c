import WireSchema.Proofs.Codec.Supplied
import WireSchema.Proofs.Derivation.Keys
import WireSchema.Proofs.Derivation.Programs

/-!
# The layouts of a program

While a program is derived, keys are given out whose layouts are not there yet.
The invariant is that each of them is known, be it stored or under way; at the
end nothing is under way, so everything known is stored. Programs that are
refused may have left keys without a layout, and nothing is said of them.
-/

namespace WireSchema

set_option autoImplicit false

open Schema Registry WireSchema.Derivation DerivationState

/-- The keys in the codecs of an instruction. -/
def InstructionEntry.keys (entry : InstructionEntry) : List String :=
  fieldKeys entry.args ++ entry.returns.toList.flatMap Codec.keys

namespace Derivation

variable {registry : Registry} {G : Bindings → Ty → Prop} {α β : Type} {known : List String}

theorem proceeds_lift (e : Except DerivationError α) :
    Proceeds registry G known (liftM e : Derivation α) (fun _ => []) := by
  cases e with
  | error e => exact proceeds_throw e
  | ok a => exact proceeds_pure (List.nil_subset _)

theorem proceeds_mapM {f : α → Derivation β} {keys : β → List String} {as : List α}
    (h : ∀ a ∈ as, Proceeds registry G known (f a) keys) :
    Proceeds registry G known (as.mapM f) (fun bs => bs.flatMap keys) := by
  induction as with
  | nil => exact proceeds_pure (List.nil_subset _)
  | cons a rest ih =>
    have hrest := ih fun a ha => h a (List.mem_cons_of_mem _ ha)
    rw [List.mapM_cons]
    refine (h a List.mem_cons_self).bind fun b _ => ?_
    refine (hrest.mono (List.subset_append_left _ (keys b))).map fun bs => ?_
    rw [List.flatMap_cons]
    apply List.append_subset.mpr
    constructor
    · exact List.subset_append_of_subset_left _ (List.subset_append_right _ _)
    · exact List.subset_append_right _ _

theorem proceeds_forM {f : α → Derivation PUnit} {as : List α}
    (h : ∀ a ∈ as, Proceeds registry G [] (f a) (fun _ => [])) :
    Proceeds registry G [] (as.forM f) (fun _ => []) := by
  induction as with
  | nil => exact proceeds_pure (List.nil_subset _)
  | cons a rest ih =>
    have hrest := ih fun a ha => h a (List.mem_cons_of_mem _ ha)
    exact (h a List.mem_cons_self).bind fun _ _ => hrest

theorem proceeds_definitions (hdistinct : registry.Distinct) :
    Proceeds registry (fun _ _ => True) [] registry.definitions (fun _ => []) := by
  apply proceeds_forM
  intro d hd
  obtain ⟨hd, hparams⟩ : d ∈ registry.defs ∧ d.params = [] := by simpa using hd
  have hget := hdistinct d hd
  have hinstance := instance?_plain hdistinct hd hparams
  have hi : registry.Names (fun _ _ => True) ⟨d.name, []⟩ := ⟨.none, _, trivial, hinstance⟩
  have hproceeds := proceeds_instantiate hi hget (meets_within hget registry.nesting)
    (layoutsProceed registry registry.nesting ⟨d.name, []⟩ d hget)
  rw [bindings_plain hdistinct hd hparams] at hproceeds
  exact hproceeds.map fun _ => List.nil_subset _

theorem proceeds_root (ty : Ty) (path : String) :
    Proceeds registry (fun _ _ => True) [] (registry.codec (some ty) path) Codec.keys := by
  have hty : ProceedsType registry (fun _ _ => True) (registry.layoutWithin registry.nesting) .none ty :=
    proceeds_type registry.closed_true (layoutsProceed registry registry.nesting) ty
  exact hty trivial path

theorem proceeds_fields (fields : List Field) (path : String) :
    Proceeds registry (fun _ _ => True) [] (registry.fields fields path) fieldKeys :=
  proceeds_deriveFields (fun entry _ => proceeds_root entry.2) path

theorem proceeds_instructionEntry (ix : Instruction) :
    Proceeds registry (fun _ _ => True) [] (Program.instructionEntry registry ix) InstructionEntry.keys := by
  have hentry : ∀ (args : List FieldCodec) (returns : Option Codec),
      Proceeds registry (fun _ _ => True) (fieldKeys args ++ returns.toList.flatMap Codec.keys)
        (do
          let d ← (Program.resolve .instruction ix.name ix.discriminator : Except DerivationError _)
          return (⟨ix.name, d, args, returns⟩ : InstructionEntry)) InstructionEntry.keys := by
    intro args returns
    refine (proceeds_lift _).bind fun d _ => proceeds_pure ?_
    exact List.subset_append_left _ _
  unfold Program.instructionEntry
  refine (proceeds_fields ix.args _).bind fun args _ => ?_
  rw [List.nil_append]
  cases ix.returns with
  | none =>
    have hnone := hentry args none
    rw [Option.toList_none, List.flatMap_nil, List.append_nil] at hnone
    exact hnone
  | some ty =>
    simp only [map_eq_pure_bind, bind_assoc, pure_bind]
    refine ((proceeds_root ty _).mono (List.nil_subset _)).bind fun codec _ => ?_
    have hsome := hentry args (some codec)
    rw [Option.toList_some, List.flatMap_singleton] at hsome
    exact hsome

end Derivation

/-- A set that is handed out holds no type that contains itself. -/
theorem selfContaining?_of_finishedLayouts {s : DerivationState} {set : LayoutSet}
    (h : (finishedLayouts.run s).1 = .ok set) : set.selfContaining? = none := by
  have hset := ok_of_finishedLayouts h
  rw [run_finishedLayouts] at h
  split at h
  · cases h
  · next hnone =>
    rwa [hset] at hnone

/-- No key of an instance with arguments is made of the characters of a name alone. -/
theorem eq_of_key_eq_name {i : Instance} {name : String} (hname : isTypeName name = true)
    (h : i.key = name) : i = ⟨name, []⟩ := by
  have htext := key_append i []
  rw [List.append_nil, h] at htext
  by_cases hargs : i.args = []
  · rw [behindName, if_pos hargs, List.append_nil] at htext
    have hi : i.name = name := String.toList_inj.mp htext.symm
    obtain ⟨first, args⟩ := i
    rw [← hi, ← hargs]
  · rw [behindName, if_neg hargs] at htext
    have hmem : '<' ∈ name.toList := by simp [htext]
    have hchar := isNameChar_of_isTypeName hname '<' hmem
    cases hchar

namespace Program

variable {doc : Document} {p : Program}

/-- After a derivation that succeeds, everything in a layout or in an entry is known. -/
theorem Built.sound (h : Built doc p) : p.layouts.Sound
    ∧ (∀ entry ∈ p.instructions, p.layouts.Resolves entry.keys)
    ∧ ∀ d ∈ doc.types, d.params = [] → p.layouts.contains d.name = true := by
  obtain ⟨s, t, hs, ht, hset⟩ := runs_of_derive h.derived
  have hlayouts : t.layouts = p.layouts := ok_of_finishedLayouts hset
  have hdistinct := Registry.distinct_ofTypes doc.types
  have hentries : Proceeds (.ofTypes doc.types) (fun _ _ => True) []
      (doc.instructions.mapM (instructionEntry (.ofTypes doc.types)))
      (fun entries => entries.flatMap InstructionEntry.keys) :=
    proceeds_mapM fun ix _ => proceeds_instructionEntry ix
  obtain ⟨hmoves, -⟩ := (proceeds_definitions hdistinct).ok _ _ _ (knows_nil _) hs
  obtain ⟨hmoves', hknown⟩ := hentries.ok _ _ _ (knows_nil _) ht
  have hall := hmoves.trans hmoves'
  have hstored : ∀ key, t.isKnown key = true → p.layouts.contains key = true := by
    intro key hkey
    rw [← hlayouts]
    exact contains_of_isKnown hall.extension.underWay hkey
  refine ⟨⟨?_, LayoutSet.wellFounded_directlyIn (selfContaining?_of_finishedLayouts hset)⟩, ?_, ?_⟩
  · intro key layout hkey inner hinner
    rw [← hlayouts] at hkey
    rcases hall.frays (closed_true _) key layout hkey with hinitial | ⟨j, -, -, hlayout, hfrays⟩
    · cases hinitial
    · apply hstored
      exact (hfrays layout hlayout inner hinner).resolve_right fun ⟨_, _, _, hfalse, _⟩ => hfalse
  · intro entry hentry key hkey
    exact hstored key (hknown key (List.mem_flatMap.mpr ⟨entry, hentry, hkey⟩))
  · intro d hd hparams
    have hrun := (Step.run_bind_ok (f := fun _ => doc.instructions.mapM (instructionEntry _)) hs).trans ht
    obtain ⟨-, hroots, -⟩ := (meets_roots hdistinct doc).ok _ _ _ hrun
    have hmem := (mem_defs_ofTypes (Document.nodup_of_validate h.valid)).mpr hd
    have hinstance := instance?_plain hdistinct hmem hparams
    apply hstored
    apply hroots ⟨d.name, []⟩
    refine List.mem_flatMap.mpr ⟨.defined d.name [], ?_, mem_instances hinstance⟩
    exact List.mem_append_left _ (List.mem_map_of_mem (List.mem_filter.mpr ⟨hmem, by simp [hparams]⟩))

end Program

end WireSchema
