import WireSchema.Proofs.Derivation.Balance
import WireSchema.Proofs.Derivation.Requests
import WireSchema.Proofs.Schema.Validation

/-!
# Derivations without a bound, watched

Here a layout is derived inside of another as often as definitions ask for it:
nothing counts how deep that goes, and `none` means that it never comes to an
end. The list shows every state that is gone through, the last one first. Such a
derivation always comes to an end, with the answer and the state of the one in
which the nesting is counted; all states on the way are balanced, and nothing is
open when it is over. How long a derivation takes is not spoken of.
-/

namespace WireSchema

set_option autoImplicit false

open Schema

/-- A registry whose layouts are derived without counting how deep that goes. -/
abbrev Watched : Type := Registry

/-- A step that may never come to an end, with the states that were gone through. -/
abbrev Recorded : Type → Type := StateT (DerivationState × List DerivationState) Option

abbrev Deriving : Type → Type := ExceptT DerivationError Recorded

namespace Watched

/-- A derivation that is over at once and leaves the state as it is. -/
def plain {α : Type} (d : Derivation α) : Deriving α :=
  ExceptT.mk fun (s, moments) => some ((d.run s).1, (d.run s).2, moments)

def change (f : DerivationState → DerivationState) : Recorded Unit :=
  modify fun (s, moments) => (f s, f s :: moments)

mutual

def codec (registry : Watched) (env : Bindings) (path : String) (ty : Ty) : Deriving Codec :=
  match ty with
  | .prim p => return .prim p
  | .option tag inner => return .option tag (← registry |>.slot env path inner)
  | .vec inner => return .vec (← registry |>.slot env path inner)
  | .array inner length => do
    let n ← plain (length.resolve env path)
    return .array (← registry |>.slot env path inner) n
  | .defined name args =>
    match registry.get? name with
    | none => throw (.undefinedType name path)
    | some d => do
      if d.params.length ≠ args.length then
        throw (.genericArity name d.params.length args.length)
      let (bindings, labels) ← registry |>.arguments env path name .none [] d.params args
      registry |>.instantiate d bindings labels
  | .generic name =>
    match env.types.lookup name with
    | some codec => return codec
    | none => throw (.unboundGeneric name path)
partial_fixpoint

def slot (registry : Watched) (env : Bindings) (path : String) (inner : Option Ty) : Deriving Codec :=
  match inner with
  | none => throw (.unresolvedType path)
  | some ty => registry |>.codec env path ty
partial_fixpoint

/-- Parameters and arguments are gone through side by side. -/
def arguments (registry : Watched) (env : Bindings) (path name : String) (bindings : Bindings)
    (labels : List String) (params : List Param) (args : List GenericArg) : Deriving (Bindings × List String) :=
  match params, args with
  | .type param :: params, .type ty :: args => do
    let codec ← registry |>.codec env path ty
    registry |>.arguments env path name { bindings with types := (param, codec) :: bindings.types }
      (labels ++ [codec.text]) params args
  | .const param _ :: params, .const value :: args =>
    let value := (env.consts.lookup value).getD value
    registry |>.arguments env path name { bindings with consts := (param, value) :: bindings.consts }
      (labels ++ [value]) params args
  | param :: _, _ :: _ => throw (.genericMismatch name param.name)
  | _, _ => return (bindings, labels)
partial_fixpoint

def instantiate (registry : Watched) (d : TypeDef) (bindings : Bindings) (labels : List String) :
    Deriving Codec := do
  let key := instanceKey d.name labels
  let (s, _) ← get
  if s.isKnown key then
    return .defined key
  if maxExpansions ≤ s.expansions d.name then
    throw (.genericExpansion d.name maxExpansions)
  change (·.start d.name key)
  registry |>.conclude d bindings key
partial_fixpoint

/-- Derive the layout that was started. An error is passed on when the layout is no longer open. -/
def conclude (registry : Watched) (d : TypeDef) (bindings : Bindings) (key : String) :
    Recorded (Except DerivationError Codec) := do
  let outcome ← (registry |>.layout d bindings key).run
  change (·.finish d.name key)
  match outcome with
  | .ok layout =>
    change (·.store key layout)
    return .ok (.defined key)
  | .error error => return .error error
partial_fixpoint

def fields (registry : Watched) (env : Bindings) (path : String) (entries : List (String × Ty)) :
    Deriving (List FieldCodec) :=
  entries.mapM fun (name, ty) => do
    let codec ← registry |>.codec env s!"{path}.{name}" ty
    return ⟨name, codec⟩
partial_fixpoint

def payloads (registry : Watched) (env : Bindings) (key : String) (variants : List Variant) :
    Deriving (List VariantCodec) :=
  variants.mapM fun v =>
    match v.fields with
    | none => return ⟨v.name, none⟩
    | some listed => do
      let codecs ← registry |>.fields env s!"{key}::{v.name}" listed.entries
      return ⟨v.name, some codecs⟩
partial_fixpoint

def layout (registry : Watched) (d : TypeDef) (env : Bindings) (key : String) : Deriving Layout := do
  if let .custom serialization := d.serialization then
    throw (.unsupportedSerialization d.name serialization)
  match d.body with
  | .struct none => return .struct []
  | .struct (some listed) => return .struct (← registry |>.fields env key listed.entries)
  | .enum variants =>
    if 256 < variants.length then
      throw (.tooManyVariants d.name variants.length)
    if d.body.isComplexEnum then
      return .complexEnum (← registry |>.payloads env key variants)
    else
      return .simpleEnum (variants.map Variant.name)
  | .aliasOf ty => return .aliasOf (← registry |>.codec env key ty)
partial_fixpoint

end

def request (registry : Watched) : Request → Deriving Unit
  | .definitions => (registry.defs.filter (·.params.isEmpty)).forM fun d => do
    let _ ← instantiate registry d .none []
    return ()
  | .codec ty path => do
    let _ ← slot registry .none path ty
    return ()
  | .fields listed path => do
    let _ ← fields registry .none path (Fields.named listed).entries
    return ()

section Rules

variable {registry : Registry} {fuel : Nat} {α β : Type} {w : Deriving α} {d : Derivation α}

theorem run_bind_ok {f : α → Deriving β} {p q : DerivationState × List DerivationState} {a : α}
    (h : w.run.run p = some (.ok a, q)) : (w >>= f).run.run p = (f a).run.run q := by
  show (w.run.run p).bind (fun r => ExceptT.bindCont f r.1 r.2) = _
  rw [h]
  rfl

theorem run_bind_error {f : α → Deriving β} {p q : DerivationState × List DerivationState} {e : DerivationError}
    (h : w.run.run p = some (.error e, q)) : (w >>= f).run.run p = some (.error e, q) := by
  show (w.run.run p).bind (fun r => ExceptT.bindCont f r.1 r.2) = _
  rw [h]
  rfl

/-- From a balanced state in which the bound leaves enough room, `w` comes to an end with what `d` does. The
states on the way are balanced, and at the end as much is under way as before. -/
def Returns (registry : Registry) (fuel : Nat) (w : Deriving α) (d : Derivation α) : Prop :=
  ∀ s : DerivationState, s.Balanced registry → registry.nesting ≤ fuel + s.underWay.length →
    ∀ moments, ∃ passed, w.run.run (s, moments) = some ((d.run s).1, (d.run s).2, passed ++ moments)
      ∧ (∀ m ∈ passed, m.Balanced registry)
      ∧ (d.run s).2.Balanced registry ∧ (d.run s).2.underWay = s.underWay

theorem returns_plain (h : ∀ s, (d.run s).2 = s) : Returns registry fuel (plain d) d := by
  intro s hs _ moments
  refine ⟨[], rfl, fun _ hm => absurd hm List.not_mem_nil, ?_⟩
  rw [h s]
  exact ⟨hs, rfl⟩

theorem returns_pure (a : α) : Returns registry fuel (pure a) (pure a) :=
  returns_plain (d := pure a) fun _ => rfl

theorem returns_throw (e : DerivationError) : Returns registry fuel (throw e : Deriving α) (throw e) :=
  returns_plain (d := throw e) fun _ => rfl

theorem Returns.bind {f : α → Deriving β} {g : α → Derivation β} (hw : Returns registry fuel w d)
    (hf : ∀ a, (∃ s t, d.run s = (.ok a, t)) → Returns registry fuel (f a) (g a)) :
    Returns registry fuel (w >>= f) (d >>= g) := by
  intro s hs hroom moments
  obtain ⟨passed, hrun, hpassed, hend, hopen⟩ := hw s hs hroom moments
  rcases hd : d.run s with ⟨e | a, t⟩
  · rw [hd] at hrun hend hopen
    refine ⟨passed, ?_, hpassed, ?_⟩
    · rw [run_bind_error hrun, Step.run_bind_error hd]
    · rw [Step.run_bind_error hd]
      exact ⟨hend, hopen⟩
  · rw [hd] at hrun hend hopen
    dsimp only at hopen
    obtain ⟨more, hmore, hmoments, hfinal, hsame⟩ := hf a ⟨s, t, hd⟩ t hend (by rwa [hopen]) (passed ++ moments)
    refine ⟨more ++ passed, ?_, List.forall_mem_append.mpr ⟨hmoments, hpassed⟩, ?_⟩
    · rw [run_bind_ok hrun, Step.run_bind_ok hd, hmore, List.append_assoc]
    · rw [Step.run_bind_ok hd]
      exact ⟨hfinal, hsame.trans hopen⟩

theorem Returns.map (hw : Returns registry fuel w d) (g : α → β) :
    Returns registry fuel (do return g (← w)) (do return g (← d)) :=
  hw.bind fun a _ => returns_pure (g a)

end Rules

section Run

variable {registry : Registry} {d : TypeDef} {bindings : Bindings} {labels : List String} {key : String}
  {s t : DerivationState} {moments more : List DerivationState}

theorem run_instantiate : (instantiate registry d bindings labels).run.run (s, moments)
    = if s.isKnown (instanceKey d.name labels) then some (.ok (.defined (instanceKey d.name labels)), s, moments)
      else if maxExpansions ≤ s.expansions d.name then
        some (.error (.genericExpansion d.name maxExpansions), s, moments)
      else (conclude registry d bindings (instanceKey d.name labels)).run
        (s.start d.name (instanceKey d.name labels),
          s.start d.name (instanceKey d.name labels) :: moments) := by
  rw [instantiate]
  generalize instanceKey d.name labels = key
  have hget : (get : Deriving (DerivationState × List DerivationState)).run.run (s, moments)
      = some (.ok (s, moments), s, moments) := rfl
  rw [run_bind_ok hget]
  by_cases hknown : s.isKnown key = true
  · simp only [hknown, if_true]
    rfl
  · simp only [hknown]
    by_cases hlimit : maxExpansions ≤ s.expansions d.name
    · rw [if_pos hlimit]
      simp only [hlimit, if_true]
      rfl
    · rw [if_neg hlimit]
      simp only [hlimit, if_false]
      rfl

theorem run_conclude_ok {layout : Layout} (h : (Watched.layout registry d bindings key).run.run (s, moments)
    = some (.ok layout, t, more)) :
    (conclude registry d bindings key).run (s, moments) = some (.ok (.defined key),
      (t.finish d.name key).store key layout,
      (t.finish d.name key).store key layout :: t.finish d.name key :: more) := by
  rw [conclude, StateT.run_bind, h]
  rfl

theorem run_conclude_error {e : DerivationError} (h : (Watched.layout registry d bindings key).run.run (s, moments)
    = some (.error e, t, more)) :
    (conclude registry d bindings key).run (s, moments)
      = some (.error e, t.finish d.name key, t.finish d.name key :: more) := by
  rw [conclude, StateT.run_bind, h]
  rfl

end Run

section Follow

variable {registry : Registry} {fuel : Nat} {derive : LayoutDeriver} {env : Bindings}

/-- Each layout that is started comes to an end if `fuel` more may be started inside of it. -/
def LayoutsReturn (registry : Registry) (fuel : Nat) (derive : LayoutDeriver) : Prop :=
  ∀ d env key, Returns registry fuel (layout registry d env key) (derive d env key)

theorem returns_instantiate (h : LayoutsReturn registry fuel derive) {d : TypeDef} {labels : List String}
    (hd : registry.get? d.name = some d) (hlabels : labels.length = d.params.length) (bindings : Bindings) :
    Returns registry (fuel + 1) (instantiate registry d bindings labels)
      (WireSchema.instantiate derive d bindings labels) := by
  intro s hs hroom moments
  rw [run_instantiate, WireSchema.run_instantiate]
  by_cases hknown : s.isKnown (instanceKey d.name labels) = true
  · rw [if_pos hknown, if_pos hknown]
    exact ⟨[], rfl, fun _ hm => absurd hm List.not_mem_nil, hs, rfl⟩
  rw [if_neg hknown, if_neg hknown]
  by_cases hlimit : maxExpansions ≤ s.expansions d.name
  · rw [if_pos hlimit, if_pos hlimit]
    exact ⟨[], rfl, fun _ hm => absurd hm List.not_mem_nil, hs, rfl⟩
  rw [if_neg hlimit, if_neg hlimit]
  have hstart := hs.start hd hlabels hknown (Nat.lt_of_not_le hlimit)
  generalize instanceKey d.name labels = key at *
  have hinside : registry.nesting ≤ fuel + (s.start d.name key).underWay.length := by
    rw [Nat.add_assoc, Nat.add_comm 1] at hroom
    exact hroom
  obtain ⟨passed, hrun, hpassed, hend, hopen⟩ := h d bindings key _ hstart hinside
    (s.start d.name key :: moments)
  rcases hlayout : (derive d bindings key).run (s.start d.name key) with ⟨e | layout, t⟩
  · rw [hlayout] at hrun hend hopen
    have hfinish := hend.finish hopen
    refine ⟨t.finish d.name key :: (passed ++ [s.start d.name key]), ?_, ?_, hfinish,
      DerivationState.underWay_finish_start hopen⟩
    · rw [run_conclude_error hrun]
      simp [settle]
    · exact List.forall_mem_cons.mpr
        ⟨hfinish, List.forall_mem_append.mpr ⟨hpassed, List.forall_mem_singleton.mpr hstart⟩⟩
  · rw [hlayout] at hrun hend hopen
    have hfinish := hend.finish hopen
    have hstore := hfinish.store key layout
    refine ⟨(t.finish d.name key).store key layout :: t.finish d.name key :: (passed ++ [s.start d.name key]), ?_,
      ?_, hstore, DerivationState.underWay_finish_start hopen⟩
    · rw [run_conclude_ok hrun]
      simp [settle]
    · exact List.forall_mem_cons.mpr ⟨hstore, List.forall_mem_cons.mpr
        ⟨hfinish, List.forall_mem_append.mpr ⟨hpassed, List.forall_mem_singleton.mpr hstart⟩⟩⟩

theorem returns_arguments (path name : String) {args : List GenericArg}
    (h : ∀ ty, GenericArg.type ty ∈ args →
      Returns registry fuel (codec registry env path ty) (ty.derive registry derive env path))
    (bindings : Bindings) (labels : List String) (params : List Param) :
    Returns registry fuel (arguments registry env path name bindings labels params args)
      (bindArgs registry derive env path name bindings labels params args) := by
  induction args generalizing bindings labels params with
  | nil =>
    rw [arguments.eq_def, bindArgs]
    cases params with
    | nil => exact returns_pure _
    | cons param params => cases param <;> exact returns_pure _
  | cons arg rest ih =>
    have ih := ih fun ty hty => h ty (List.mem_cons_of_mem _ hty)
    rw [arguments.eq_def]
    cases arg with
    | type ty =>
      rcases params with _ | ⟨param | ⟨param, kind⟩, params⟩
      · exact returns_pure _
      · rw [bindArgs]
        exact (h ty List.mem_cons_self).bind fun codec _ => ih _ _ params
      · exact returns_throw _
    | const value =>
      rcases params with _ | ⟨param | ⟨param, kind⟩, params⟩
      · exact returns_pure _
      · exact returns_throw _
      · rw [bindArgs]
        exact ih _ _ params

/-- There is a text for each argument. -/
theorem length_of_bindArgs {path name : String} {args : List GenericArg} {bindings : Bindings}
    {labels : List String} {params : List Param} {result : Bindings × List String} {s t : DerivationState}
    (hlen : params.length = args.length)
    (h : (bindArgs registry derive env path name bindings labels params args).run s = (.ok result, t)) :
    result.2.length = labels.length + params.length := by
  induction args generalizing bindings labels params s with
  | nil =>
    cases h
    rw [hlen]
    rfl
  | cons arg rest ih =>
    obtain ⟨param, params, rfl⟩ := List.exists_cons_of_length_eq_add_one hlen
    rw [List.length_cons, List.length_cons, Nat.add_right_cancel_iff] at hlen
    have hmore : ∀ label, (labels ++ [label]).length + params.length = labels.length + (param :: params).length := by
      intro label
      rw [List.length_append, List.length_singleton, List.length_cons]
      omega
    cases arg with
    | type ty =>
      cases param with
      | const param kind => cases h
      | type param =>
        rw [bindArgs] at h
        obtain ⟨codec, u, -, h⟩ := Step.ok_of_run_bind h
        exact (ih hlen h).trans (hmore codec.text)
    | const value =>
      cases param with
      | type param => cases h
      | const param kind =>
        rw [bindArgs] at h
        exact (ih hlen h).trans (hmore _)

theorem returns_codec (h : LayoutsReturn registry fuel derive) (ty : Ty) (path : String) :
    Returns registry (fuel + 1) (codec registry env path ty) (ty.derive registry derive env path) := by
  have hslot : ∀ {inner : Option Ty}, (∀ ty ∈ inner, Returns registry (fuel + 1) (codec registry env path ty)
      (ty.derive registry derive env path)) →
      Returns registry (fuel + 1) (slot registry env path inner) (deriveSlot registry derive env path inner) := by
    intro inner ih
    rw [slot.eq_def]
    cases inner with
    | none => exact returns_throw _
    | some ty => exact ih ty rfl
  induction ty using Ty.induction with
  | prim p =>
    rw [codec, Ty.derive]
    exact returns_pure _
  | option tag inner ih =>
    rw [codec, Ty.derive]
    exact (hslot ih).map (Codec.option tag)
  | vec inner ih =>
    rw [codec, Ty.derive]
    exact (hslot ih).map Codec.vec
  | array inner length ih =>
    rw [codec, Ty.derive]
    refine (returns_plain fun s => ?_).bind fun n _ => (hslot ih).map (Codec.array · n)
    cases hn : length.resolve? env with
    | none =>
      obtain ⟨e, he⟩ := throw_of_resolve? path hn
      rw [he]
      rfl
    | some n =>
      rw [resolve_of_resolve? hn]
      rfl
  | defined name args ih =>
    rw [codec, Ty.derive]
    cases hd : registry.get? name with
    | none => exact returns_throw _
    | some d =>
      dsimp only
      by_cases hlen : d.params.length = args.length
      · simp only [hlen, ne_eq, not_true_eq_false, if_false]
        refine (returns_arguments path name ih .none [] d.params).bind ?_
        rintro ⟨bindings, labels⟩ ⟨s, t, hrun⟩
        refine returns_instantiate h ?_ ?_ bindings
        · rw [Registry.name_of_get? hd]
          exact hd
        · exact (length_of_bindArgs hlen hrun).trans (Nat.zero_add _)
      · simp only [hlen, ne_eq, not_false_eq_true, if_true]
        exact returns_throw _
  | generic name =>
    rw [codec, Ty.derive]
    cases env.types.lookup name with
    | none => exact returns_throw _
    | some codec => exact returns_pure _

end Follow

section Bodies

variable {registry : Registry} {fuel : Nat} {env : Bindings} {codecOf : String → Ty → Derivation Codec}

/-- Every type comes to an end at every path. -/
def TypesReturn (registry : Registry) (fuel : Nat) (env : Bindings)
    (codecOf : String → Ty → Derivation Codec) : Prop :=
  ∀ path ty, Returns registry fuel (codec registry env path ty) (codecOf path ty)

theorem returns_fields (h : TypesReturn registry fuel env codecOf) (path : String) (entries : List (String × Ty)) :
    Returns registry fuel (fields registry env path entries) (deriveFields codecOf path entries) := by
  rw [fields]
  induction entries with
  | nil => exact returns_pure []
  | cons entry rest ih =>
    obtain ⟨name, ty⟩ := entry
    rw [List.mapM_cons, deriveFields, bind_assoc]
    refine (h _ ty).bind fun codec _ => ?_
    rw [pure_bind]
    exact ih.map (⟨name, codec⟩ :: ·)

theorem returns_payloads (h : TypesReturn registry fuel env codecOf) (key : String) (variants : List Variant) :
    Returns registry fuel (payloads registry env key variants) (deriveVariants codecOf key variants) := by
  rw [payloads]
  induction variants with
  | nil => exact returns_pure []
  | cons v rest ih =>
    rw [List.mapM_cons]
    obtain ⟨name, _ | listed⟩ := v
    · rw [deriveVariants]
      dsimp only
      rw [pure_bind]
      exact ih.map (⟨name, none⟩ :: ·)
    · rw [deriveVariants]
      dsimp only
      rw [bind_assoc]
      refine (returns_fields h _ listed.entries).bind fun codecs _ => ?_
      rw [pure_bind]
      exact ih.map (⟨name, some codecs⟩ :: ·)

theorem returns_layout (h : TypesReturn registry fuel env codecOf) (d : TypeDef) (key : String) :
    Returns registry fuel (layout registry d env key) (d.layout codecOf key) := by
  obtain ⟨name, docs, serialization, representation, params, body⟩ := d
  rw [layout]
  unfold TypeDef.layout
  cases serialization
  case custom serialization => exact returns_throw _
  all_goals
    cases body with
    | struct listed =>
      cases listed with
      | none => exact returns_pure _
      | some listed => exact (returns_fields h key listed.entries).map Layout.struct
    | enum variants =>
      dsimp only
      by_cases hcount : 256 < variants.length
      · simp only [hcount, if_true]
        exact returns_throw _
      · simp only [hcount, if_false]
        cases (Body.enum variants).isComplexEnum with
        | true => exact (returns_payloads h key variants).map Layout.complexEnum
        | false => exact returns_pure _
    | aliasOf ty => exact (h key ty).map Layout.aliasOf

theorem layoutsReturn (registry : Registry) (fuel : Nat) :
    LayoutsReturn registry fuel (registry.layoutWithin (fuel + 1)) := by
  induction fuel with
  | zero =>
    -- as many layouts as there can be are under way already
    intro d env key s hs hroom
    have hbound := hs.length_underWay_le
    rw [Registry.nesting] at hroom
    omega
  | succ fuel ih => exact fun d env key => returns_layout (fun path ty => returns_codec ih ty path) d key

end Bodies

section Requests

variable {registry : Registry}

theorem returns_request (hdistinct : registry.Distinct) (request : Request) :
    Returns registry registry.nesting (Watched.request registry request) (request.derive registry) := by
  have hlayouts : LayoutsReturn registry (maxExpansions * registry.defs.length) registry.deriveLayout :=
    layoutsReturn registry _
  have htypes : TypesReturn registry registry.nesting .none fun path ty => registry.codec (some ty) path :=
    fun path ty => returns_codec hlayouts ty path
  cases request with
  | definitions =>
    rw [Watched.request, Request.derive, Registry.definitions]
    have hmem : ∀ d ∈ registry.defs.filter (·.params.isEmpty), d ∈ registry.defs ∧ d.params = [] :=
      fun d hd => by simpa using hd
    generalize registry.defs.filter (·.params.isEmpty) = ds at hmem
    induction ds with
    | nil => exact returns_pure ()
    | cons d ds ih =>
      obtain ⟨hd, hparams⟩ := hmem d List.mem_cons_self
      have hlabels : ([] : List String).length = d.params.length := by
        rw [hparams]
        rfl
      have hone := returns_instantiate hlayouts (hdistinct d hd) hlabels .none
      exact (hone.map fun _ => ()).bind fun _ _ => ih fun d hd => hmem d (List.mem_cons_of_mem _ hd)
  | codec ty path =>
    refine Returns.map ?_ fun _ => ()
    rw [slot.eq_def]
    cases ty with
    | none => exact returns_throw _
    | some ty => exact htypes path ty
  | fields listed path => exact (returns_fields htypes path _).map fun _ => ()

end Requests

end Watched

section Sessions

variable {registry : Registry}

/-- Between requests nothing is open. -/
theorem closed_after (hdistinct : registry.Distinct) (requests : List Request) :
    (registry.after requests).Balanced registry ∧ (registry.after requests).underWay = [] := by
  have hfrom : ∀ s : DerivationState, s.Balanced registry → s.underWay = [] →
      (registry.afterFrom s requests).Balanced registry ∧ (registry.afterFrom s requests).underWay = [] := by
    induction requests with
    | nil => exact fun s hs hopen => ⟨hs, hopen⟩
    | cons request rest ih =>
      intro s hs hopen
      obtain ⟨_, -, -, hend, hsame⟩ := Watched.returns_request hdistinct request s hs (Nat.le_add_right _ _) []
      exact ih _ hend (hsame.trans hopen)
  exact hfrom .initial (DerivationState.balanced_of_closed rfl fun _ => rfl) rfl

/-- Whatever was asked for before, a request is answered without a bound on the nesting of layouts. All the
while the counters agree with what is open, within the limit, and in the end nothing is. -/
theorem Registry.request_returns (types : List TypeDef) (requests : List Request) (request : Request) :
    let registry := Registry.ofTypes types
    let s := registry.after requests
    let t := registry.after (requests ++ [request])
    ∃ moments, (Watched.request registry request).run.run (s, [s])
        = some (((request.derive registry).run s).1, t, moments)
      ∧ (∀ m ∈ moments, ∀ name, m.expansions name = (m.openKeys name).length ∧ (m.openKeys name).Nodup
        ∧ m.expansions name ≤ maxExpansions
        ∧ ∀ d, registry.get? name = some d → d.params = [] → m.expansions name ≤ 1)
      ∧ t.underWay = [] ∧ ∀ name, t.expansions name = 0 := by
  intro registry s t
  have hdistinct := Registry.distinct_ofTypes types
  obtain ⟨hs, hopen⟩ := closed_after hdistinct requests
  obtain ⟨ht, hdone⟩ := closed_after hdistinct (requests ++ [request])
  obtain ⟨passed, hrun, hpassed, -⟩ :=
    Watched.returns_request hdistinct request s hs (Nat.le_add_right _ _) [s]
  have hlast : t = ((request.derive registry).run s).2 := List.foldl_append
  refine ⟨passed ++ [s], by rw [hlast]; exact hrun, ?_, hdone, ht.expansions_eq_zero hdone⟩
  intro m hm name
  have hbalanced : m.Balanced registry :=
    List.forall_mem_append.mpr ⟨hpassed, List.forall_mem_singleton.mpr hs⟩ m hm
  exact ⟨hbalanced.counted name, hbalanced.nodup_openKeys name, hbalanced.limited name,
    fun d hd hparams => hbalanced.expansions_le_one hd hparams⟩

/-- A definition that asks for a new instance of itself for ever is given up on, and nothing stays open. -/
theorem Registry.request_returns_nest :
    let types : List TypeDef := [.record "Nest" [.type "T"]
      [("next", .option .byte (some (.defined "Nest" [.type (.vec (some (.generic "T")))])))]]
    let request : Request := .codec (some (.defined "Nest" [.type (.prim (.scalar .u8))])) "field"
    ∃ t moments, (Watched.request (Registry.ofTypes types) request).run.run (.initial, [.initial])
        = some (.error (.genericExpansion "Nest" 32), t, moments)
      ∧ t.underWay = [] ∧ t.expansions "Nest" = 0 := by
  intro types request
  have herror : ((request.derive (Registry.ofTypes types)).run .initial).1
      = .error (.genericExpansion "Nest" 32) := by decide +kernel
  obtain ⟨moments, hrun, -, hopen, hcount⟩ := Registry.request_returns types [] request
  rw [← herror]
  exact ⟨_, moments, hrun, hopen, hcount "Nest"⟩

end Sessions

end WireSchema
