import WireSchema.Proofs.Derivation.Complete
import WireSchema.Proofs.Derivation.Keys
import WireSchema.Proofs.Schema.Validation

/-!
# Documents whose keys can be told apart

A document is unambiguous if no definition without generics is called like a
keyword, none with generics like a wrapper, and no constant given for a generic
has a comma and a space in it. Then all that its types are derived to is made of
instances that fit their definitions, whatever the bindings, and no two of these
have one key.
-/

namespace WireSchema

set_option autoImplicit false

open Schema Registry

def Schema.GenericArg.const? : GenericArg → Option String
  | .type _ => none
  | .const value => some value

/-- The constants that a type gives for generics, inside of it too. -/
def Schema.Ty.constants (ty : Ty) : List String :=
  ty.within.flatMap fun
    | .defined _ args => args.filterMap GenericArg.const?
    | _ => []

def Schema.Document.Unambiguous (doc : Document) : Prop :=
  (∀ d ∈ doc.types, d.params = [] → ∀ p ∈ Primitive.all, d.name ≠ p.keyword)
    ∧ (∀ d ∈ doc.types, d.params ≠ [] → d.name ∉ ["Vec", "Option", "COption"])
    ∧ ∀ ty ∈ doc.types.flatMap (fun d => d.body.types) ++ doc.instructions.flatMap Instruction.types,
        ∀ text ∈ ty.constants, ¬ ", ".toList <:+: text.toList

instance (doc : Document) : Decidable doc.Unambiguous :=
  inferInstanceAs (Decidable (_ ∧ _ ∧ _))

/-- No constant in the type has a separator. -/
def Schema.Ty.Plain (ty : Ty) : Prop :=
  ∀ text ∈ ty.constants, Unsplit text.toList

theorem mem_constants {ty : Ty} {text : String} :
    text ∈ ty.constants ↔ ∃ name args, Ty.defined name args ∈ ty.within ∧ GenericArg.const text ∈ args := by
  rw [Ty.constants, List.mem_flatMap]
  constructor
  · rintro ⟨part, hpart, htext⟩
    cases part with
    | defined name args =>
      obtain ⟨arg, harg, heq⟩ := List.mem_filterMap.mp htext
      cases arg with
      | type ty => cases heq
      | const value =>
        cases heq
        exact ⟨name, args, hpart, harg⟩
    | _ => cases htext
  · rintro ⟨name, args, hpart, harg⟩
    exact ⟨_, hpart, List.mem_filterMap.mpr ⟨_, harg, rfl⟩⟩

theorem Schema.Ty.Plain.within {ty part : Ty} (h : ty.Plain) (hpart : part ∈ ty.within) : part.Plain := by
  intro text htext
  obtain ⟨name, args, hdefined, harg⟩ := mem_constants.mp htext
  exact h text (mem_constants.mpr ⟨name, args, mem_within_trans hpart hdefined, harg⟩)

section Made

variable {registry : Registry} {env : Bindings}

/-- What generics stand for is made of instances, and constants have no separator. -/
structure Bindings.Made (registry : Registry) (env : Bindings) : Prop where
  types : ∀ entry ∈ env.types, registry.Made entry.2
  consts : ∀ entry ∈ env.consts, Unsplit entry.2.toList

structure MadeArguments (registry : Registry) (args : List Argument) : Prop where
  types : ∀ codec, Argument.type codec ∈ args → registry.Made codec
  consts : ∀ text, Argument.const text ∈ args → Unsplit text.toList

theorem Bindings.Made.const (h : env.Made registry) {value : String} (hvalue : Unsplit value.toList) :
    Unsplit ((env.consts.lookup value).getD value).toList := by
  cases hlookup : env.consts.lookup value with
  | none => exact hvalue
  | some text => exact h.consts _ (Keyed.mem_of_lookup hlookup)

theorem made_of_binds (henv : env.Made registry) {params : List Param} {args : List GenericArg}
    {arguments : List Argument}
    (htypes : ∀ ty, GenericArg.type ty ∈ args → ∀ codec, ty.resolve registry env = some codec →
      registry.Made codec)
    (hconsts : ∀ value, GenericArg.const value ∈ args → Unsplit value.toList)
    (h : registry.Binds env params args arguments) :
    arguments.map Argument.isConst = params.map Param.isConst ∧ MadeArguments registry arguments := by
  induction h with
  | nil => exact ⟨rfl, by simp, by simp⟩
  | @type param ty codec params args arguments hcodec _ ih =>
    obtain ⟨hkinds, hmade⟩ := ih (fun ty hty => htypes ty (List.mem_cons_of_mem _ hty))
      fun value hvalue => hconsts value (List.mem_cons_of_mem _ hvalue)
    have hfirst := htypes ty List.mem_cons_self codec hcodec
    refine ⟨congrArg (false :: ·) hkinds, fun other hother => ?_, fun text htext => ?_⟩
    · rcases List.mem_cons.mp hother with heq | hother
      · cases heq
        exact hfirst
      · exact hmade.types other hother
    · exact hmade.consts text ((List.mem_cons.mp htext).resolve_left fun heq => by cases heq)
  | @const param kind value params args arguments _ ih =>
    obtain ⟨hkinds, hmade⟩ := ih (fun ty hty => htypes ty (List.mem_cons_of_mem _ hty))
      fun value hvalue => hconsts value (List.mem_cons_of_mem _ hvalue)
    have hfirst := henv.const (hconsts value List.mem_cons_self)
    refine ⟨congrArg (true :: ·) hkinds, fun other hother => ?_, fun text htext => ?_⟩
    · exact hmade.types other ((List.mem_cons.mp hother).resolve_left fun heq => by cases heq)
    · rcases List.mem_cons.mp htext with heq | htext
      · cases heq
        exact hfirst
      · exact hmade.consts text htext

theorem made_instance? (henv : env.Made registry) {ty : Ty} (hplain : ty.Plain) {i : Instance}
    (htypes : ∀ name args, ty = .defined name args → ∀ ty, GenericArg.type ty ∈ args →
      ∀ codec, ty.resolve registry env = some codec → registry.Made codec)
    (h : registry.instance? env ty = some i) : registry.Fits i ∧ MadeArguments registry i.args := by
  cases ty with
  | defined name args =>
    obtain ⟨d, arguments, hd, hbinds, rfl⟩ := binds_of_instance? h
    have hconsts : ∀ value, GenericArg.const value ∈ args → Unsplit value.toList := fun value hvalue =>
      hplain value (mem_constants.mpr ⟨name, args, List.mem_cons_self, hvalue⟩)
    obtain ⟨hkinds, hmade⟩ := made_of_binds henv (htypes name args rfl) hconsts hbinds
    exact ⟨⟨⟨d, hd, hkinds⟩, hmade.consts⟩, hmade⟩
  | _ => cases h

/-- What a type is derived to is made of instances. -/
theorem made_resolve (henv : env.Made registry) {ty : Ty} (hplain : ty.Plain) {codec : Codec}
    (h : ty.resolve registry env = some codec) : registry.Made codec := by
  induction ty using Ty.induction generalizing codec with
  | prim p =>
    cases h
    exact .spelled (.prim p) fun _ h => by cases h
  | generic name => exact henv.types _ (Keyed.mem_of_lookup h)
  | option tag slot ih =>
    obtain ⟨inner, hinner, rfl⟩ := Option.map_eq_some_iff.mp h
    cases slot with
    | none => cases hinner
    | some ty =>
      have hmade := ih ty rfl (hplain.within (List.mem_cons_of_mem _ ty.self_mem_within)) hinner
      exact .spelled (.option tag inner) fun a ha => by
        cases List.mem_singleton.mp ha
        exact hmade
  | vec slot ih =>
    obtain ⟨inner, hinner, rfl⟩ := Option.map_eq_some_iff.mp h
    cases slot with
    | none => cases hinner
    | some ty =>
      have hmade := ih ty rfl (hplain.within (List.mem_cons_of_mem _ ty.self_mem_within)) hinner
      exact .spelled (.vec inner) fun a ha => by
        cases List.mem_singleton.mp ha
        exact hmade
  | array slot length ih =>
    obtain ⟨n, -, h⟩ := Option.bind_eq_some_iff.mp h
    obtain ⟨inner, hinner, heq⟩ := Option.bind_eq_some_iff.mp h
    cases heq
    cases slot with
    | none => cases hinner
    | some ty => exact .array n (ih ty rfl (hplain.within (List.mem_cons_of_mem _ ty.self_mem_within)) hinner)
  | defined name args ih =>
    rw [resolve_defined] at h
    obtain ⟨i, hi, rfl⟩ := Option.map_eq_some_iff.mp h
    have hargs : ∀ ty, GenericArg.type ty ∈ args → ty.Plain := fun ty hty =>
      hplain.within (List.mem_cons_of_mem _ (mem_withinArgs.mpr ⟨ty, hty, ty.self_mem_within⟩))
    obtain ⟨hfits, hmade⟩ := made_instance? henv hplain (fun _ _ heq ty hty codec hcodec => by
      cases heq
      exact ih ty hty (hargs ty hty) hcodec) hi
    exact .spelled (.defined hfits) hmade.types

theorem fits_of_instance? (henv : env.Made registry) {ty : Ty} (hplain : ty.Plain) {i : Instance}
    (h : registry.instance? env ty = some i) : registry.Fits i ∧ MadeArguments registry i.args := by
  refine made_instance? henv hplain (fun name args heq inner hinner codec hcodec => ?_) h
  refine made_resolve henv (hplain.within ?_) hcodec
  rw [heq]
  exact List.mem_cons_of_mem _ (mem_withinArgs.mpr ⟨inner, hinner, inner.self_mem_within⟩)

theorem Bindings.Made.bind {bindings : Bindings} (h : bindings.Made registry) {args : List Argument}
    (hargs : MadeArguments registry args) (params : List Param) :
    (bindings.bind params args).Made registry := by
  induction args generalizing bindings params with
  | nil => rcases params with _ | ⟨_ | _, params⟩ <;> exact h
  | cons arg rest ih =>
    have hrest : MadeArguments registry rest :=
      ⟨fun c hc => hargs.types c (List.mem_cons_of_mem _ hc),
        fun t ht => hargs.consts t (List.mem_cons_of_mem _ ht)⟩
    rcases params with _ | ⟨param | ⟨param, ty⟩, params⟩ <;> rcases arg with codec | text
    · exact h
    · exact h
    · have hfirst : Bindings.Made registry ⟨(param, codec) :: bindings.types, bindings.consts⟩ :=
        ⟨List.forall_mem_cons.mpr ⟨hargs.types codec List.mem_cons_self, h.types⟩, h.consts⟩
      exact ih hfirst hrest params
    · exact h
    · exact h
    · have hfirst : Bindings.Made registry ⟨bindings.types, (param, text) :: bindings.consts⟩ :=
        ⟨h.types, List.forall_mem_cons.mpr ⟨hargs.consts text List.mem_cons_self, h.consts⟩⟩
      exact ih hfirst hrest params

theorem made_none : Bindings.none.Made registry :=
  ⟨by simp [Bindings.none], by simp [Bindings.none]⟩

theorem made_bindings {i : Instance} (h : MadeArguments registry i.args) :
    (registry.bindings i).Made registry := by
  unfold Registry.bindings
  split
  · exact made_none.bind h _
  · exact made_none

variable {roots : List Ty}

/-- All that is come to is plain, and so is what generics stand for there. -/
theorem made_reaches (hroots : ∀ ty ∈ roots, ty.Plain)
    (hbodies : ∀ i : Instance, ∀ ty ∈ registry.types i, ty.Plain) {ty : Ty}
    (h : registry.Reaches roots env ty) : env.Made registry ∧ ty.Plain := by
  induction h with
  | root hty => exact ⟨made_none, hroots _ hty⟩
  | part _ hpart ih => exact ⟨ih.1, ih.2.within hpart⟩
  | @body env ref ty i _ hi hty ih =>
    obtain ⟨henv, hplain⟩ := ih
    exact ⟨made_bindings (fits_of_instance? henv hplain hi).2, hbodies i ty hty⟩

theorem distinctKeys_of_plain (hnames : registry.ClearNames) (hroots : ∀ ty ∈ roots, ty.Plain)
    (hbodies : ∀ i : Instance, ∀ ty ∈ registry.types i, ty.Plain) : registry.DistinctKeys roots := by
  rintro i j ⟨env, ty, hty, hi⟩ ⟨env', ty', hty', hj⟩ hkey
  obtain ⟨henv, hplain⟩ := made_reaches hroots hbodies hty
  obtain ⟨henv', hplain'⟩ := made_reaches hroots hbodies hty'
  obtain ⟨hfits, hmade⟩ := fits_of_instance? henv hplain hi
  obtain ⟨hfits', hmade'⟩ := fits_of_instance? henv' hplain' hj
  exact key_injective hnames hfits hfits' hmade.types hmade'.types hkey

end Made

section Documents

variable {doc : Document}

theorem clearNames_of_unambiguous (hdoc : doc.validate = .ok ()) (h : doc.Unambiguous) :
    (Registry.ofTypes doc.types).ClearNames := by
  have hmem : ∀ name d, (Registry.ofTypes doc.types).get? name = some d → d ∈ doc.types ∧ d.name = name :=
    fun name d hd => (get?_ofTypes_of_nodup (Document.nodup_of_validate hdoc)).mp hd
  constructor
  · intro name d hd
    obtain ⟨hmem, rfl⟩ := hmem name d hd
    exact Document.isTypeName_of_validate hdoc hmem
  · intro name d hd hparams p
    obtain ⟨hmem, rfl⟩ := hmem name d hd
    exact h.1 d hmem hparams p (mem_all p)
  · intro name d hd hparams
    obtain ⟨hmem, rfl⟩ := hmem name d hd
    have hwrappers := h.2.1 d hmem hparams
    refine ⟨fun heq => hwrappers (by simp [heq]), fun tag heq => hwrappers ?_⟩
    cases tag <;> simp [heq, OptionTag.label]

theorem plain_types (hdoc : doc.validate = .ok ()) (h : doc.Unambiguous) (i : Instance) :
    ∀ ty ∈ (Registry.ofTypes doc.types).types i, ty.Plain := by
  intro ty hty
  unfold Registry.types at hty
  split at hty
  · next d hd =>
    have hmem := ((get?_ofTypes_of_nodup (Document.nodup_of_validate hdoc)).mp hd).1
    exact h.2.2 ty (List.mem_append_left _ (List.mem_flatMap.mpr ⟨d, hmem, hty⟩))
  · cases hty

theorem plain_roots (h : doc.Unambiguous) {ty : Ty}
    (hty : ty ∈ Program.roots (Registry.ofTypes doc.types) doc) : ty.Plain := by
  rcases List.mem_append.mp hty with hty | hty
  · obtain ⟨d, -, rfl⟩ := List.mem_map.mp hty
    intro text htext
    exact absurd htext (by simp [Ty.constants, Ty.within, withinArgs])
  · exact h.2.2 ty (List.mem_append_right _ hty)

/-- Keys of an unambiguous document tell instances apart. -/
theorem distinctKeys_of_unambiguous (hdoc : doc.validate = .ok ()) (h : doc.Unambiguous) :
    (Registry.ofTypes doc.types).DistinctKeys
      (Program.roots (Registry.ofTypes doc.types) doc) :=
  distinctKeys_of_plain (clearNames_of_unambiguous hdoc h) (fun _ hty => plain_roots h hty)
    (plain_types hdoc h)

end Documents

end WireSchema
