import WireSchema.Proofs.Derivation.Derive

/-!
# What a run does, step by step

A derivation changes its state in one way only: it starts an instance, works
inside of it, and then stores its layout or gives it up. `Moves` is that, and an
instance is given up only for the error with which the whole run fails. When a
layout is stored every key in it is known, be it stored or under way.
-/

namespace WireSchema

set_option autoImplicit false

open Schema Registry WireSchema.Derivation DerivationState

def Codec.keys : Codec → List String
  | .prim _ => []
  | .option _ inner => inner.keys
  | .vec inner => inner.keys
  | .array inner _ => inner.keys
  | .defined key => [key]

def fieldKeys (fields : List FieldCodec) : List String :=
  fields.flatMap fun f => f.codec.keys

def variantKeys (variants : List VariantCodec) : List String :=
  variants.flatMap fun v => fieldKeys (v.fields.getD [])

/-- The keys anywhere inside a layout. -/
def Layout.keys : Layout → List String
  | .struct fields => fieldKeys fields
  | .simpleEnum _ => []
  | .complexEnum variants => variantKeys variants
  | .aliasOf codec => codec.keys

/-- The keys in what the generics stand for. -/
def Bindings.keys (env : Bindings) : List String :=
  env.types.flatMap fun entry => entry.2.keys

def DerivationState.Knows (s : DerivationState) (keys : List String) : Prop :=
  ∀ key ∈ keys, s.isKnown key = true

namespace DerivationState

variable {s t : DerivationState} {keys more : List String}

theorem Knows.subset (h : s.Knows keys) (hsub : more ⊆ keys) : s.Knows more :=
  fun key hkey => h key (hsub hkey)

theorem Knows.mono (h : s.Knows keys) (hst : s.Extends t) : t.Knows keys :=
  fun key hkey => hst.known (h key hkey)

@[simp] theorem knows_append : s.Knows (keys ++ more) ↔ s.Knows keys ∧ s.Knows more :=
  List.forall_mem_append

@[simp] theorem knows_nil (s : DerivationState) : s.Knows [] :=
  fun _ h => absurd h List.not_mem_nil

end DerivationState

namespace Registry

/-- The types that are come to from the definition of an instance. -/
inductive Within (registry : Registry) (i : Instance) : Bindings → Ty → Prop
  | body {ty : Ty} : ty ∈ registry.types i → Within registry i (registry.bindings i) ty
  | part {env : Bindings} {ty part : Ty} : Within registry i env ty → part ∈ ty.within →
      Within registry i env part
  | step {env : Bindings} {ref ty : Ty} {j : Instance} : Within registry i env ref →
      registry.instance? env ref = some j → ty ∈ registry.types j →
      Within registry i (registry.bindings j) ty

/-- Why the derivation of an instance can fail with an error: the limit was met, or the instance or
something inside of it has no layout. -/
def Fails (registry : Registry) (e : DerivationError) (i : Instance) : Prop :=
  (∃ name, e = .genericExpansion name maxExpansions)
    ∨ registry.layout? i = none ∨ registry.Broken (registry.Within i)

/-- `t` comes of `s` by starting instances of `G` and storing them or, where `A` holds, giving them up. -/
inductive Moves (registry : Registry) (A : Instance → Prop) :
    (Bindings → Ty → Prop) → DerivationState → DerivationState → Prop
  | refl {G : Bindings → Ty → Prop} (s : DerivationState) : Moves registry A G s s
  | trans {G : Bindings → Ty → Prop} {s t u : DerivationState} : Moves registry A G s t →
      Moves registry A G t u → Moves registry A G s u
  | stored {G : Bindings → Ty → Prop} {s t : DerivationState} {i : Instance} {layout : Layout} :
      registry.Names G i → ¬ s.isKnown i.key = true → s.expansions i.name < maxExpansions →
      Moves registry A (registry.Within i) (s.start i.name i.key) t →
      registry.layout? i = some layout → t.Knows layout.keys →
      Moves registry A G s ((t.finish i.name i.key).store i.key layout)
  | abandoned {G : Bindings → Ty → Prop} {s t : DerivationState} {i : Instance} :
      registry.Names G i → ¬ s.isKnown i.key = true → s.expansions i.name < maxExpansions →
      Moves registry A (registry.Within i) (s.start i.name i.key) t → A i →
      Moves registry A G s (t.finish i.name i.key)

variable {registry : Registry} {G : Bindings → Ty → Prop} {A B : Instance → Prop}
  {s t u : DerivationState} {i j : Instance}

theorem closed_within (registry : Registry) (i : Instance) : registry.Closed (registry.Within i) :=
  ⟨.part, .step⟩

theorem Within.of_closed (hclosed : registry.Closed G) (hi : registry.Names G i) {env : Bindings}
    {ty : Ty} (h : registry.Within i env ty) : G env ty := by
  obtain ⟨outer, ref, hG, href⟩ := hi
  induction h with
  | body hty => exact hclosed.body hG href hty
  | part _ hpart ih => exact hclosed.part ih hpart
  | step _ hj hty ih => exact hclosed.body ih hj hty

theorem names_of_within (hclosed : registry.Closed G) (hi : registry.Names G i)
    (hj : registry.Names (registry.Within i) j) : registry.Names G j := by
  obtain ⟨env, ref, href, hj⟩ := hj
  exact ⟨env, ref, href.of_closed hclosed hi, hj⟩

namespace Moves

theorem extension (h : registry.Moves A G s t) : s.Extends t := by
  induction h with
  | refl s => exact .refl s
  | trans _ _ ihst ihtu => exact ihst.trans ihtu
  | stored _ hknown _ _ _ _ ih => exact extends_store hknown (extends_finish ih)
  | abandoned _ _ _ _ _ ih => exact extends_finish ih

theorem mono (h : registry.Moves A G s t) (hAB : ∀ i, A i → B i) : registry.Moves B G s t := by
  induction h with
  | refl s => exact .refl s
  | trans _ _ ihst ihtu => exact ihst.trans ihtu
  | stored hi hknown hlimit _ hlayout hkeys ih => exact .stored hi hknown hlimit ih hlayout hkeys
  | abandoned hi hknown hlimit _ hA ih => exact .abandoned hi hknown hlimit ih (hAB _ hA)

end Moves

end Registry

/-- From a state that knows `known`, a run of `d` moves, and then knows the keys of its answer; only a run
that fails gives anything up, and for the reasons of its error. -/
structure Derivation.Proceeds (registry : Registry) (G : Bindings → Ty → Prop) {α : Type}
    (known : List String) (d : Derivation α) (keys : α → List String) : Prop where
  ok : ∀ s a t, s.Knows known → d.run s = (.ok a, t) →
    registry.Moves (fun _ => False) G s t ∧ t.Knows (keys a)
  error : ∀ s e t, s.Knows known → d.run s = (.error e, t) → registry.Moves (registry.Fails e) G s t

namespace Derivation

section Rules

variable {registry : Registry} {G : Bindings → Ty → Prop} {α β : Type} {known more : List String}
  {d : Derivation α} {keys : α → List String}

theorem proceeds_pure {a : α} (h : keys a ⊆ known) : Proceeds registry G known (pure a) keys where
  ok s b t hs hb := by
    obtain ⟨rfl, rfl⟩ : a = b ∧ s = t := by simpa using hb
    exact ⟨.refl s, hs.subset h⟩
  error s e t _ he := nomatch he

theorem proceeds_throw (e : DerivationError) :
    Proceeds registry G known (throw e : Derivation α) keys where
  ok s a t _ ha := nomatch ha
  error s e' t _ he := by
    obtain ⟨-, rfl⟩ : e = e' ∧ s = t := by simpa using he
    exact .refl s

theorem Proceeds.mono (h : Proceeds registry G known d keys) (hsub : known ⊆ more) :
    Proceeds registry G more d keys where
  ok s a t hs := h.ok s a t (hs.subset hsub)
  error s e t hs := h.error s e t (hs.subset hsub)

/-- The second part is looked at only for what the first can answer. -/
theorem Proceeds.bind {f : α → Derivation β} {keys' : β → List String} (hd : Proceeds registry G known d keys)
    (hf : ∀ a, (∃ s t, d.run s = (.ok a, t)) → Proceeds registry G (known ++ keys a) (f a) keys') :
    Proceeds registry G known (d >>= f) keys' where
  ok s b u hs hb := by
    obtain ⟨a, t, hrun, hb⟩ := Step.ok_of_run_bind hb
    obtain ⟨hst, ha⟩ := hd.ok s a t hs hrun
    have hknown : t.Knows (known ++ keys a) := knows_append.mpr ⟨hs.mono hst.extension, ha⟩
    obtain ⟨htu, hb⟩ := (hf a ⟨s, t, hrun⟩).ok t b u hknown hb
    exact ⟨hst.trans htu, hb⟩
  error s e u hs he := by
    rcases Step.error_of_run_bind he with hrun | ⟨a, t, hrun, he⟩
    · exact hd.error s e u hs hrun
    · obtain ⟨hst, ha⟩ := hd.ok s a t hs hrun
      have hknown : t.Knows (known ++ keys a) := knows_append.mpr ⟨hs.mono hst.extension, ha⟩
      exact (hst.mono fun _ h => h.elim).trans ((hf a ⟨s, t, hrun⟩).error t e u hknown he)

theorem Proceeds.map {g : α → β} {keys' : β → List String} (hd : Proceeds registry G known d keys)
    (h : ∀ a, keys' (g a) ⊆ known ++ keys a) :
    Proceeds registry G known (do return g (← d)) keys' :=
  hd.bind fun a _ => proceeds_pure (h a)

end Rules

section Instances

variable {registry : Registry} {G : Bindings → Ty → Prop} {derive : LayoutDeriver} {d : TypeDef}
  {i : Instance}

/-- Why the body of a definition has no layout, with nothing outside of it looked at. -/
theorem meets_within (hd : registry.get? i.name = some d) (fuel : Nat) :
    Meets registry (registry.Within i) (registry.layout? i = none ∨ registry.Broken (registry.Within i))
      (registry.layoutWithin fuel d (registry.bindings i) i.key)
      (fun layout => registry.layout? i = some layout) (registry.mentioned i) := by
  have hclosed := registry.closed_within i
  cases fuel with
  | zero => exact meets_throw (.inl ⟨_, rfl⟩)
  | succ fuel =>
    rw [layoutWithin, mentioned, types_eq hd, layout?_eq hd]
    refine meets_layout (fun ty hty path => ?_) .inl i.key
    have hbody : registry.Within i (registry.bindings i) ty := .body (by rwa [types_eq hd])
    have hty := derives_type hclosed (derivesLayouts_layoutWithin hclosed fuel) ty hbody path
    exact hty.mono .inr (fun _ => id) (List.Subset.refl _)

theorem proceeds_instantiate (hi : registry.Names G i) (hd : registry.get? i.name = some d)
    (hmeets : Meets registry (registry.Within i)
      (registry.layout? i = none ∨ registry.Broken (registry.Within i))
      (derive d (registry.bindings i) i.key) (fun layout => registry.layout? i = some layout)
      (registry.mentioned i))
    (h : Proceeds registry (registry.Within i) (registry.bindings i).keys
      (derive d (registry.bindings i) i.key) Layout.keys) :
    Proceeds registry G (registry.bindings i).keys
      (instantiate derive d (registry.bindings i) (i.args.map Argument.text)) Codec.keys := by
  have hstart : ∀ s : DerivationState, s.Knows (registry.bindings i).keys →
      (s.start i.name i.key).Knows (registry.bindings i).keys :=
    fun s hs key hkey => isKnown_start.mpr (.inl (hs key hkey))
  constructor
  case ok =>
    intro s codec u hs hu
    cases instantiates_instance hd hu with
    | known hknown => exact ⟨.refl s, List.forall_mem_singleton.mpr hknown⟩
    | stored hknown hroom hrun =>
      obtain ⟨hmoves, hkeys⟩ := h.ok _ _ _ (hstart s hs) hrun
      have hlayout := (hmeets.ok _ _ _ hrun).1
      exact ⟨.stored hi hknown hroom hmoves hlayout hkeys,
        List.forall_mem_singleton.mpr (isKnown_store_self _ _ _)⟩
  case error =>
    intro s e u hs hu
    cases instantiates_instance hd hu with
    | refused _ _ => exact .refl s
    | abandoned hknown hroom hrun =>
      have hmoves := h.error _ _ _ (hstart s hs) hrun
      exact .abandoned hi hknown hroom hmoves (hmeets.error _ _ _ hrun)

end Instances

section Types

variable {registry : Registry} {G : Bindings → Ty → Prop} {derive : LayoutDeriver} {env : Bindings}

def ProceedsType (registry : Registry) (G : Bindings → Ty → Prop) (derive : LayoutDeriver)
    (env : Bindings) (ty : Ty) : Prop :=
  G env ty → ∀ path, Proceeds registry G env.keys (ty.derive registry derive env path) Codec.keys

def LayoutsProceed (registry : Registry) (fuel : Nat) : Prop :=
  ∀ i d, registry.get? i.name = some d → Proceeds registry (registry.Within i) (registry.bindings i).keys
    (registry.layoutWithin fuel d (registry.bindings i) i.key) Layout.keys

theorem keys_bind_type (bindings : Bindings) (param : String) (codec : Codec) :
    Bindings.keys { bindings with types := (param, codec) :: bindings.types }
      = codec.keys ++ bindings.keys := rfl

theorem proceeds_bindArgs (path name : String) {args : List GenericArg}
    (h : ∀ ty, GenericArg.type ty ∈ args → ProceedsType registry G derive env ty)
    (hG : ∀ ty, GenericArg.type ty ∈ args → G env ty) (bindings : Bindings) (labels : List String)
    (params : List Param) :
    Proceeds registry G (env.keys ++ bindings.keys)
      (bindArgs registry derive env path name bindings labels params args) (fun r => r.1.keys) := by
  induction args generalizing bindings labels params with
  | nil => exact proceeds_pure (List.subset_append_right _ _)
  | cons arg rest ih =>
    have ih := ih (fun ty hty => h ty (List.mem_cons_of_mem _ hty))
      (fun ty hty => hG ty (List.mem_cons_of_mem _ hty))
    cases arg with
    | type ty =>
      rcases params with _ | ⟨param | ⟨param, text⟩, params⟩
      · exact proceeds_pure (List.subset_append_right _ _)
      · have hty := h ty List.mem_cons_self (hG ty List.mem_cons_self) path
        rw [bindArgs]
        refine (hty.mono (List.subset_append_left _ _)).bind fun codec _ => (ih _ _ _).mono ?_
        rw [keys_bind_type]
        intro key hkey
        simp only [List.mem_append] at hkey ⊢
        rcases hkey with henv | hcodec | hbindings
        · exact .inl (.inl henv)
        · exact .inr hcodec
        · exact .inl (.inr hbindings)
      · rw [bindArgs]
        exact proceeds_throw _
    | const value =>
      rcases params with _ | ⟨param | ⟨param, text⟩, params⟩
      · exact proceeds_pure (List.subset_append_right _ _)
      · rw [bindArgs]
        exact proceeds_throw _
      · rw [bindArgs]
        exact ih { bindings with consts := (param, _) :: bindings.consts } _ _

theorem proceeds_slot {w : Codec → Codec} {inner : Option Ty} {path : String}
    (hw : ∀ codec, (w codec).keys = codec.keys)
    (h : ∀ ty ∈ inner, Proceeds registry G env.keys (ty.derive registry derive env path) Codec.keys) :
    Proceeds registry G env.keys (do return w (← deriveSlot registry derive env path inner)) Codec.keys := by
  cases inner with
  | none => exact proceeds_throw _
  | some ty =>
    refine (h ty rfl).map fun codec => ?_
    rw [hw]
    exact List.subset_append_right _ _

theorem subset_keys_of_lookup {name : String} {codec : Codec} (h : env.types.lookup name = some codec) :
    codec.keys ⊆ env.keys := by
  intro key hkey
  exact List.mem_flatMap.mpr ⟨_, Keyed.mem_of_lookup h, hkey⟩

theorem proceeds_length (length : ArrayLength) (path : String) :
    Proceeds registry G env.keys (length.resolve env path) (fun _ => []) := by
  cases hn : length.resolve? env with
  | none =>
    obtain ⟨e, he⟩ := throw_of_resolve? path hn
    rw [he]
    exact proceeds_throw e
  | some n =>
    rw [resolve_of_resolve? hn]
    exact proceeds_pure (List.nil_subset _)

theorem proceeds_defined (hclosed : registry.Closed G) {fuel : Nat} (hlayouts : LayoutsProceed registry fuel)
    {name : String} {args : List GenericArg}
    (h : ∀ ty, GenericArg.type ty ∈ args → ProceedsType registry G (registry.layoutWithin fuel) env ty) :
    ProceedsType registry G (registry.layoutWithin fuel) env (.defined name args) := by
  intro hG path
  have hargs : ∀ ty, GenericArg.type ty ∈ args → G env ty := fun ty hty =>
    hclosed.part hG (List.mem_cons_of_mem _ (mem_withinArgs.mpr ⟨ty, hty, ty.self_mem_within⟩))
  rw [Ty.derive]
  cases hget : registry.get? name with
  | none => exact proceeds_throw _
  | some d =>
    by_cases hlen : d.params.length = args.length
    · simp only [hlen, ne_eq, not_true_eq_false, if_false]
      have hbind := proceeds_bindArgs path name h hargs .none [] d.params
      rw [show Bindings.none.keys = [] from rfl, List.append_nil] at hbind
      refine hbind.bind ?_
      rintro result ⟨s, t, hrun⟩
      obtain ⟨i, hi, rfl, rfl⟩ := names_of_bindArgs hclosed (derivesLayouts_layoutWithin hclosed fuel) hG hget hlen hrun
      have hproceeds := proceeds_instantiate hi hget (meets_within hget fuel) (hlayouts i d hget)
      exact hproceeds.mono (List.subset_append_right _ _)
    · simp only [hlen, ne_eq, not_false_eq_true, if_true]
      exact proceeds_throw _

theorem proceeds_type (hclosed : registry.Closed G) {fuel : Nat} (hlayouts : LayoutsProceed registry fuel)
    (ty : Ty) : ProceedsType registry G (registry.layoutWithin fuel) env ty := by
  induction ty using Ty.induction with
  | prim p => exact fun _ _ => proceeds_pure (List.nil_subset _)
  | option tag inner ih =>
    intro hG path
    rw [Ty.derive]
    refine proceeds_slot (fun _ => rfl) fun ty hty => ih ty hty (hclosed.part hG ?_) path
    obtain rfl := hty
    exact List.mem_cons_of_mem _ ty.self_mem_within
  | vec inner ih =>
    intro hG path
    rw [Ty.derive]
    refine proceeds_slot (fun _ => rfl) fun ty hty => ih ty hty (hclosed.part hG ?_) path
    obtain rfl := hty
    exact List.mem_cons_of_mem _ ty.self_mem_within
  | array inner length ih =>
    intro hG path
    rw [Ty.derive]
    refine (proceeds_length length path).bind fun n _ => ?_
    rw [List.append_nil]
    refine proceeds_slot (fun _ => rfl) fun ty hty => ih ty hty (hclosed.part hG ?_) path
    obtain rfl := hty
    exact List.mem_cons_of_mem _ ty.self_mem_within
  | defined name args ih => exact proceeds_defined hclosed hlayouts ih
  | generic name =>
    intro hG path
    rw [Ty.derive]
    cases hcodec : env.types.lookup name with
    | none => exact proceeds_throw _
    | some codec => exact proceeds_pure (subset_keys_of_lookup hcodec)

end Types

section Layouts

variable {registry : Registry} {G : Bindings → Ty → Prop} {known : List String}
  {codecOf : String → Ty → Derivation Codec}

theorem proceeds_deriveFields {entries : List (String × Ty)}
    (h : ∀ entry ∈ entries, ∀ path, Proceeds registry G known (codecOf path entry.2) Codec.keys)
    (path : String) : Proceeds registry G known (deriveFields codecOf path entries) fieldKeys := by
  induction entries with
  | nil => exact proceeds_pure (List.nil_subset _)
  | cons entry rest ih =>
    obtain ⟨name, ty⟩ := entry
    have hrest := ih fun entry hentry => h entry (List.mem_cons_of_mem _ hentry)
    refine (h _ List.mem_cons_self _).bind fun codec _ => ?_
    refine (hrest.mono (List.subset_append_left _ _)).map fun codecs => ?_
    rw [fieldKeys, List.flatMap_cons]
    exact List.append_subset.mpr ⟨List.Subset.trans (List.subset_append_right _ _) (List.subset_append_left _ _),
      List.subset_append_right _ _⟩

theorem proceeds_deriveVariants {variants : List Variant}
    (h : ∀ ty ∈ (Body.enum variants).types, ∀ path,
      Proceeds registry G known (codecOf path ty) Codec.keys) (key : String) :
    Proceeds registry G known (deriveVariants codecOf key variants) variantKeys := by
  induction variants with
  | nil => exact proceeds_pure (List.nil_subset _)
  | cons v rest ih =>
    have hrest := ih fun ty hty => h ty (by
      rw [Body.types, List.flatMap_cons]
      exact List.mem_append_right _ hty)
    obtain ⟨name, _ | fields⟩ := v
    · rw [deriveVariants]
      exact hrest.map fun codecs => List.subset_append_right _ _
    · rw [deriveVariants]
      refine (proceeds_deriveFields (fun entry hentry => h entry.2 ?_) _).bind fun codecs _ => ?_
      · rw [Body.types, List.flatMap_cons]
        exact List.mem_append_left _ (List.mem_map_of_mem hentry)
      · refine (hrest.mono (List.subset_append_left _ _)).map fun variants => ?_
        rw [variantKeys, List.flatMap_cons]
        exact List.append_subset.mpr ⟨List.Subset.trans (List.subset_append_right _ _) (List.subset_append_left _ _),
          List.subset_append_right _ _⟩

theorem proceeds_layout {d : TypeDef}
    (h : ∀ ty ∈ d.body.types, ∀ path, Proceeds registry G known (codecOf path ty) Codec.keys)
    (key : String) : Proceeds registry G known (d.layout codecOf key) Layout.keys := by
  obtain ⟨name, docs, serialization, representation, params, body⟩ := d
  dsimp only at h
  unfold TypeDef.layout
  cases serialization
  case custom serialization => exact proceeds_throw _
  all_goals
    cases body with
    | struct fields =>
      cases fields with
      | none => exact proceeds_pure (List.nil_subset _)
      | some fields =>
        have hfields := proceeds_deriveFields (fun entry hentry => h entry.2 (List.mem_map_of_mem hentry)) key
        exact hfields.map fun codecs => List.subset_append_right _ _
    | enum variants =>
      dsimp only
      by_cases hcount : 256 < variants.length
      · simp only [hcount, if_true]
        exact proceeds_throw _
      · simp only [hcount, if_false]
        cases hcomplex : (Body.enum variants).isComplexEnum with
        | true => exact (proceeds_deriveVariants h key).map fun codecs => List.subset_append_right _ _
        | false => exact proceeds_pure (List.nil_subset _)
    | aliasOf ty =>
      have hty := h ty (List.mem_singleton_self ty) key
      exact hty.map fun codec => List.subset_append_right _ _

end Layouts

theorem layoutsProceed (registry : Registry) (fuel : Nat) : LayoutsProceed registry fuel := by
  induction fuel with
  | zero => exact fun i d _ => proceeds_throw _
  | succ fuel ih =>
    intro i d hd
    rw [layoutWithin]
    refine proceeds_layout (fun ty hty path => ?_) i.key
    have hbody : registry.Within i (registry.bindings i) ty := .body (by rwa [types_eq hd])
    exact proceeds_type (registry.closed_within i) ih ty hbody path

end Derivation

end WireSchema
