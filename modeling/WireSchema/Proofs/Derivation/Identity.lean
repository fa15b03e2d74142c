import WireSchema.Proofs.Derivation.Unambiguous

/-!
# One key, one instance

In an accepted document that is unambiguous, references to which a derivation
gives one key name one definition with one list of arguments, and what is stored
under the key is the layout of that instance. Exactly, it is so when no two
instances that are come to have one key. Each of the three conditions for being
unambiguous is needed: without it a key may stand for two instances, and the
layout stored is then that of whichever was derived first.
-/

namespace WireSchema

set_option autoImplicit false

open Schema Registry WireSchema.Derivation DerivationState

section Known

variable {registry : Registry} {derive : LayoutDeriver} {env : Bindings} {s : DerivationState}

theorem run_bindArgs_of_known (path name : String) {args : List GenericArg}
    (h : ∀ ty, GenericArg.type ty ∈ args → ∀ codec, ty.resolve registry env = some codec →
      (∀ i ∈ registry.instances env ty, s.isKnown i.key = true) →
      (ty.derive registry derive env path).run s = (.ok codec, s))
    (hknown : ∀ i ∈ registry.argInstances env args, s.isKnown i.key = true) (bindings : Bindings)
    (labels : List String) {params : List Param} {arguments : List Argument}
    (hbinds : registry.Binds env params args arguments) :
    ∃ result, (bindArgs registry derive env path name bindings labels params args).run s
      = (.ok (result, labels ++ arguments.map Argument.text), s) := by
  induction hbinds generalizing bindings labels with
  | nil => exact ⟨bindings, by rw [List.map_nil, List.append_nil]; rfl⟩
  | @type param ty codec params args arguments hcodec _ ih =>
    rw [argInstances_type] at hknown
    obtain ⟨hfirst, hrest⟩ := List.forall_mem_append.mp hknown
    obtain ⟨result, hresult⟩ := ih (fun ty hty => h ty (List.mem_cons_of_mem _ hty)) hrest
      { bindings with types := (param, codec) :: bindings.types } (labels ++ [codec.text])
    refine ⟨result, ?_⟩
    rw [bindArgs, Step.run_bind_ok (h ty List.mem_cons_self codec hcodec hfirst), hresult]
    simp [Argument.text]
  | @const param kind value params args arguments _ ih =>
    obtain ⟨result, hresult⟩ := ih (fun ty hty => h ty (List.mem_cons_of_mem _ hty)) hknown
      { bindings with consts := (param, (env.consts.lookup value).getD value) :: bindings.consts }
      (labels ++ [(env.consts.lookup value).getD value])
    refine ⟨result, ?_⟩
    rw [bindArgs, hresult]
    simp [Argument.text]

/-- Where all instances in a type are known, nothing is left to derive. -/
theorem run_derive_of_known (path : String) {ty : Ty} {codec : Codec}
    (h : ty.resolve registry env = some codec)
    (hknown : ∀ i ∈ registry.instances env ty, s.isKnown i.key = true) :
    (ty.derive registry derive env path).run s = (.ok codec, s) := by
  induction ty using Ty.induction generalizing codec with
  | prim p =>
    cases h
    rfl
  | generic name =>
    rw [Ty.resolve] at h
    rw [Ty.derive, h]
    rfl
  | option tag slot ih =>
    obtain ⟨inner, hinner, rfl⟩ := Option.map_eq_some_iff.mp h
    cases slot with
    | none => cases hinner
    | some ty =>
      rw [Ty.derive, deriveSlot, Step.run_bind_ok (ih ty rfl hinner (by simpa using hknown))]
      rfl
  | vec slot ih =>
    obtain ⟨inner, hinner, rfl⟩ := Option.map_eq_some_iff.mp h
    cases slot with
    | none => cases hinner
    | some ty =>
      rw [Ty.derive, deriveSlot, Step.run_bind_ok (ih ty rfl hinner (by simpa using hknown))]
      rfl
  | array slot length ih =>
    obtain ⟨n, hn, h⟩ := Option.bind_eq_some_iff.mp h
    obtain ⟨inner, hinner, heq⟩ := Option.bind_eq_some_iff.mp h
    cases heq
    cases slot with
    | none => cases hinner
    | some ty =>
      rw [Ty.derive, resolve_of_resolve? hn, pure_bind, deriveSlot,
        Step.run_bind_ok (ih ty rfl hinner (by simpa using hknown))]
      rfl
  | defined name args ih =>
    rw [resolve_defined] at h
    obtain ⟨i, hi, rfl⟩ := Option.map_eq_some_iff.mp h
    have hself := hknown i (mem_instances hi)
    obtain ⟨d, arguments, hd, hbinds, rfl⟩ := binds_of_instance? hi
    have hargs : ∀ i ∈ registry.argInstances env args, s.isKnown i.key = true := fun i hi =>
      hknown i (by rw [instances_defined]; exact List.mem_append_right _ hi)
    obtain ⟨result, hresult⟩ := run_bindArgs_of_known path name (fun ty hty codec => ih ty hty)
      hargs .none [] hbinds
    rw [Ty.derive, hd]
    simp only [hbinds.length_eq, ne_eq, not_true_eq_false, if_false]
    show ((bindArgs registry derive env path name .none [] d.params args) >>= _).run s = _
    rw [Step.run_bind_ok hresult, run_instantiate, name_of_get? hd]
    exact if_pos hself

end Known

/-- References to which a derivation gives one key stand for one instance, and its layout is stored
under the key. The states in which the references are met are arbitrary. -/
def Schema.Document.KeysIdentify (doc : Document) : Prop :=
  let registry := Registry.ofTypes doc.types
  let roots := Program.roots registry doc
  ∀ (p : Program) (env env' : Bindings) (name name' : String) (args args' : List GenericArg)
    (path path' key : String) (s t s' t' : DerivationState), Program.ofDocument doc = .ok p →
    registry.Reaches roots env (.defined name args) → registry.Reaches roots env' (.defined name' args') →
    ((Ty.defined name args).derive registry registry.deriveLayout env path).run s = (.ok (.defined key), t) →
    ((Ty.defined name' args').derive registry registry.deriveLayout env' path').run s'
      = (.ok (.defined key), t') →
    ∃ i layout, registry.instance? env (.defined name args) = some i
      ∧ registry.instance? env' (.defined name' args') = some i ∧ i.name = name ∧ i.name = name'
      ∧ i.key = key ∧ registry.layout? i = some layout ∧ p.layouts.get? key = some layout

section Identity

variable {doc : Document}

theorem instance?_of_run {registry : Registry} {roots : List Ty} {env : Bindings} {name : String}
    {args : List GenericArg} {path key : String} {s t : DerivationState}
    (href : registry.Reaches roots env (.defined name args))
    (h : ((Ty.defined name args).derive registry registry.deriveLayout env path).run s
      = (.ok (.defined key), t)) :
    ∃ i, registry.instance? env (.defined name args) = some i ∧ i.name = name ∧ i.key = key := by
  have hclosed := registry.reaches_closed roots
  have hresolve := ((derives_type hclosed (derivesLayouts_deriveLayout hclosed) _ href path).ok s _ t h).1
  rw [resolve_defined] at hresolve
  obtain ⟨i, hi, hkey⟩ := Option.map_eq_some_iff.mp hresolve
  exact ⟨i, hi, name_of_instance? hi, Codec.defined.inj hkey⟩

theorem exists_run_of_instance? {registry : Registry} (derive : LayoutDeriver) {env : Bindings} {ref : Ty}
    {i : Instance} (h : registry.instance? env ref = some i) (path : String) :
    ∃ s, (ref.derive registry derive env path).run s = (.ok (.defined i.key), s) := by
  have hresolve : ref.resolve registry env = some (.defined i.key) := by
    cases ref with
    | defined name args =>
      rw [resolve_defined, h]
      rfl
    | _ => cases h
  -- all that the reference mentions is under way
  refine ⟨⟨.empty, (registry.instances env ref).map fun j => (j.name, j.key), []⟩,
    run_derive_of_known path hresolve fun j hj => ?_⟩
  exact isKnown_iff.mpr (.inr ⟨j.name, List.mem_map_of_mem hj⟩)

theorem keysIdentify_of_distinctKeys (hkeys : (Registry.ofTypes doc.types).DistinctKeys
    (Program.roots (Registry.ofTypes doc.types) doc)) : doc.KeysIdentify := by
  unfold Document.KeysIdentify
  intro registry roots p env env' name name' args args' path path' key s t s' t' hp href href' h h'
  obtain ⟨-, entries, hderive⟩ := Program.derive_of_ofDocument hp
  have hsolves := Program.solves_of_derive hkeys hderive
  obtain ⟨i, hi, hname, hkey⟩ := instance?_of_run href h
  obtain ⟨j, hj, hname', hkey'⟩ := instance?_of_run href' h'
  obtain rfl := hkeys i j ⟨env, _, href, hi⟩ ⟨env', _, href', hj⟩ (hkey.trans hkey'.symm)
  obtain ⟨layout, hlayout, hget⟩ := hsolves.stored i ⟨env, _, href, hi⟩
  exact ⟨i, layout, hi, hj, hname, hname', hkey, hlayout, hkey ▸ hget⟩

theorem distinctKeys_of_keysIdentify {p : Program} (hp : Program.ofDocument doc = .ok p)
    (h : doc.KeysIdentify) : (Registry.ofTypes doc.types).DistinctKeys
      (Program.roots (Registry.ofTypes doc.types) doc) := by
  rintro i j ⟨env, ref, href, hi⟩ ⟨env', ref', href', hj⟩ hkey
  cases ref with
  | defined name args =>
    cases ref' with
    | defined name' args' =>
      obtain ⟨s, hrun⟩ := exists_run_of_instance? (Registry.ofTypes doc.types).deriveLayout hi ""
      obtain ⟨s', hrun'⟩ := exists_run_of_instance? (Registry.ofTypes doc.types).deriveLayout hj ""
      rw [← hkey] at hrun'
      obtain ⟨k, -, hk, hk', -⟩ := h p _ _ _ _ _ _ "" "" _ _ _ _ _ hp href href' hrun hrun'
      have hik : i = k := Option.some.inj (hi.symm.trans hk)
      have hjk : j = k := Option.some.inj (hj.symm.trans hk')
      exact hik.trans hjk.symm
    | _ => cases hj
  | _ => cases hi

/-- When keys identify instances, and that they do in an unambiguous document. -/
theorem keysIdentify_conditions {p : Program} (hp : Program.ofDocument doc = .ok p) :
    (doc.KeysIdentify ↔ (Registry.ofTypes doc.types).DistinctKeys
      (Program.roots (Registry.ofTypes doc.types) doc)) ∧ (doc.Unambiguous → doc.KeysIdentify) := by
  refine ⟨⟨distinctKeys_of_keysIdentify hp, keysIdentify_of_distinctKeys⟩, fun hdoc => ?_⟩
  have hvalid := (Program.derive_of_ofDocument hp).1
  exact keysIdentify_of_distinctKeys (distinctKeys_of_unambiguous hvalid hdoc)

/-- One key from a reference with the argument itself and from one with a generic that is bound to it. -/
theorem keysIdentify_nested :
    let u8 : Ty := .prim (.scalar .u8)
    let types : List TypeDef := [.record "Wrap" [.type "T"] [("value", .generic "T")],
      .record "Outer" [.type "T"] [("inner", .defined "Wrap" [.type (.generic "T")])],
      .record "Holder" [] [("a", .defined "Wrap" [.type u8]), ("b", .defined "Outer" [.type u8])]]
    let registry := Registry.ofTypes types
    (∃ p, Program.ofDocument (.ofTypes types) = .ok p) ∧ (Document.ofTypes types).KeysIdentify
      ∧ registry.instance? .none (.defined "Wrap" [.type u8])
        = registry.instance? ⟨[("T", .prim (.scalar .u8))], []⟩ (.defined "Wrap" [.type (.generic "T")]) := by
  intro u8 types registry
  have hok : (Program.ofDocument (.ofTypes types)).isOk = true := by decide +kernel
  obtain ⟨p, hp⟩ := Step.exists_of_isOk hok
  exact ⟨⟨p, hp⟩, (keysIdentify_conditions hp).2 (by decide +kernel), rfl⟩

end Identity

section Clashes

/-- A definition without generics that mentions two instances with one key. -/
theorem not_keysIdentify {types : List TypeDef} {d : TypeDef} {i j : Instance}
    (hok : (Program.ofDocument (.ofTypes types)).isOk = true) (hd : d ∈ types) (hparams : d.params = [])
    (hi : ∃ ref ∈ d.body.types, (Registry.ofTypes types).instance? .none ref = some i)
    (hj : ∃ ref ∈ d.body.types, (Registry.ofTypes types).instance? .none ref = some j)
    (hkey : i.key = j.key) (hne : i ≠ j) : ¬ (Document.ofTypes types).KeysIdentify := by
  intro hkeys
  obtain ⟨p, hp⟩ := Step.exists_of_isOk hok
  have hnames := Document.nodup_of_validate (Program.derive_of_ofDocument hp).1
  have hmem : d ∈ (Registry.ofTypes types).defs := (mem_defs_ofTypes hnames).mpr hd
  obtain ⟨ref, href, hi⟩ := hi
  obtain ⟨ref', href', hj⟩ := hj
  exact hne (distinctKeys_of_keysIdentify hp hkeys i j
    ⟨.none, ref, Program.reaches_plain (distinct_ofTypes types) _ hmem hparams href, hi⟩
    ⟨.none, ref', Program.reaches_plain (distinct_ofTypes types) _ hmem hparams href', hj⟩ hkey)

/-- A definition called like a wrapper, one called like a keyword, and constants with separators: these
documents are accepted, and a key stands for two instances. -/
theorem key_clashes :
    let u8 : Ty := .prim (.scalar .u8)
    let wrap : TypeDef := .record "Wrap" [.type "T"] [("value", .generic "T")]
    let wrapper : List TypeDef := [.record "Vec" [.type "T"] [("item", .generic "T")], wrap,
      .record "Holder" [] [("a", .defined "Wrap" [.type (.vec (some u8))]),
        ("b", .defined "Wrap" [.type (.defined "Vec" [.type u8])])]]
    let keyword : List TypeDef := [.record "u8" [] [("flag", .prim .bool)], wrap,
      .record "Holder" [] [("a", .defined "Wrap" [.type u8]),
        ("b", .defined "Wrap" [.type (.defined "u8" [])])]]
    let constant : List TypeDef := [.record "Grid" [.const "A" "str", .const "N" "usize", .const "B" "str"]
        [("cells", .array (some u8) (.generic "N"))],
      .record "Holder" [] [("a", .defined "Grid" [.const "x", .const "2", .const "3, y"]),
        ("b", .defined "Grid" [.const "x, 2", .const "3", .const "y"])]]
    ∀ types ∈ [wrapper, keyword, constant], (Program.ofDocument (.ofTypes types)).isOk = true
      ∧ ¬ (Document.ofTypes types).KeysIdentify := by
  intro u8 wrap wrapper keyword constant types htypes
  have hok : ∀ types ∈ [wrapper, keyword, constant],
      (Program.ofDocument (.ofTypes types)).isOk = true := by decide +kernel
  refine ⟨hok types htypes, ?_⟩
  have hok := hok types htypes
  simp only [List.mem_cons, List.not_mem_nil, or_false] at htypes
  rcases htypes with rfl | rfl | rfl
  · refine not_keysIdentify (i := ⟨"Wrap", [.type (.vec (.prim (.scalar .u8)))]⟩)
      (j := ⟨"Wrap", [.type (.defined "Vec<u8>")]⟩) hok (.tail _ (.tail _ (.head _))) rfl
      ⟨_, .head _, rfl⟩ ⟨_, .tail _ (.head _), rfl⟩ (by decide) (by decide)
  · refine not_keysIdentify (i := ⟨"Wrap", [.type (.prim (.scalar .u8))]⟩)
      (j := ⟨"Wrap", [.type (.defined "u8")]⟩) hok (.tail _ (.tail _ (.head _))) rfl
      ⟨_, .head _, rfl⟩ ⟨_, .tail _ (.head _), rfl⟩ (by decide) (by decide)
  · refine not_keysIdentify (i := ⟨"Grid", [.const "x", .const "2", .const "3, y"]⟩)
      (j := ⟨"Grid", [.const "x, 2", .const "3", .const "y"]⟩) hok (.tail _ (.head _)) rfl
      ⟨_, .head _, rfl⟩ ⟨_, .tail _ (.head _), rfl⟩ (by decide) (by decide)

end Clashes

end WireSchema
