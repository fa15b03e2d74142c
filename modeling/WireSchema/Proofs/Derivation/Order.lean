import WireSchema.Proofs.Derivation.Crowded
import WireSchema.Proofs.Derivation.Unambiguous

/-!
# The order of definitions

What references stand for depends on the definitions by name only, so it is the
same for every order of them. A derivation follows that unless it gives up at
the limit on instances under way. It does so only for a definition with more
instances than the limit, and when it does may depend on the order: an instance
that is stored already is not expanded again. Where instances share a key, the
order decides which of them counts. Nothing is said of which error is reported
when both fail.
-/

namespace WireSchema

set_option autoImplicit false

open Schema Registry WireSchema.Derivation DerivationState

section Congruence

variable {registry other : Registry}

def Registry.SameDefinitions (registry other : Registry) : Prop :=
  ∀ name, registry.get? name = other.get? name

theorem resolveArgs_congr {env : Bindings} {args : List GenericArg}
    (h : ∀ ty, GenericArg.type ty ∈ args → ty.resolve registry env = ty.resolve other env)
    (params : List Param) : resolveArgs registry env params args = resolveArgs other env params args := by
  induction args generalizing params with
  | nil => rfl
  | cons arg rest ih =>
    have ih := ih fun ty hty => h ty (List.mem_cons_of_mem _ hty)
    cases arg with
    | type ty =>
      rcases params with _ | ⟨_ | _, params⟩
      · rfl
      · rw [resolveArgs, resolveArgs, h ty List.mem_cons_self, ih]
      · rfl
    | const value =>
      rcases params with _ | ⟨_ | _, params⟩
      · rfl
      · rfl
      · rw [resolveArgs, resolveArgs, ih]

namespace Registry.SameDefinitions

variable (h : registry.SameDefinitions other)

include h

theorem symm : other.SameDefinitions registry :=
  fun name => (h name).symm

theorem resolve (env : Bindings) (ty : Ty) : ty.resolve registry env = ty.resolve other env := by
  have hslot : ∀ inner : Option Ty, (∀ ty ∈ inner, ty.resolve registry env = ty.resolve other env) →
      resolveSlot registry env inner = resolveSlot other env inner := by
    intro inner ih
    cases inner with
    | none => rfl
    | some ty => exact ih ty rfl
  induction ty using Ty.induction with
  | prim p => rfl
  | generic name => rfl
  | option tag inner ih => rw [Ty.resolve, Ty.resolve, hslot inner ih]
  | vec inner ih => rw [Ty.resolve, Ty.resolve, hslot inner ih]
  | array inner length ih => rw [Ty.resolve, Ty.resolve, hslot inner ih]
  | defined name args ih =>
    rw [Ty.resolve, Ty.resolve, h name]
    simp only [resolveArgs_congr ih]

theorem instance? (env : Bindings) (ty : Ty) : registry.instance? env ty = other.instance? env ty := by
  cases ty with
  | defined name args =>
    rw [instance?_defined, instance?_defined, h name]
    simp only [resolveArgs_congr fun ty _ => h.resolve env ty]
  | _ => rfl

theorem bindings (i : Instance) : registry.bindings i = other.bindings i := by
  rw [Registry.bindings, Registry.bindings, h i.name]

theorem types (i : Instance) : registry.types i = other.types i := by
  rw [Registry.types, Registry.types, h i.name]

theorem layout? (i : Instance) : registry.layout? i = other.layout? i := by
  have hresolve : Ty.resolve registry (registry.bindings i) = Ty.resolve other (other.bindings i) := by
    rw [h.bindings i]
    exact funext (h.resolve _)
  rw [Registry.layout?, Registry.layout?, h i.name, hresolve]

theorem reaches {roots otherRoots : List Ty} (hroots : roots ⊆ otherRoots) {env : Bindings} {ty : Ty}
    (hty : registry.Reaches roots env ty) : other.Reaches otherRoots env ty := by
  induction hty with
  | root hty => exact .root (hroots hty)
  | part _ hpart ih => exact .part ih hpart
  | @body env ref ty i _ hi hty ih =>
    rw [h.bindings i]
    exact .body ih (by rwa [← h.instance? env ref]) (by rwa [← h.types i])

theorem names {roots otherRoots : List Ty} (hroots : roots ⊆ otherRoots) {i : Instance}
    (hi : registry.Names (registry.Reaches roots) i) : other.Names (other.Reaches otherRoots) i := by
  obtain ⟨env, ty, hty, hi⟩ := hi
  exact ⟨env, ty, h.reaches hroots hty, by rwa [← h.instance? env ty]⟩

theorem crowded {roots otherRoots : List Ty} (hroots : roots ⊆ otherRoots) {name : String}
    (hname : registry.Crowded (registry.Reaches roots) name) : other.Crowded (other.Reaches otherRoots) name :=
  hname.trans_le (Set.encard_le_encard fun _ hi => ⟨h.names hroots hi.1, hi.2⟩)

theorem distinctKeys {roots otherRoots : List Ty} (hroots : otherRoots ⊆ roots)
    (hkeys : registry.DistinctKeys roots) : other.DistinctKeys otherRoots :=
  fun i j hi hj => hkeys i j (h.symm.names hroots hi) (h.symm.names hroots hj)

theorem solves {roots otherRoots : List Ty} (hsub : roots ⊆ otherRoots) (hsup : otherRoots ⊆ roots)
    {set : LayoutSet} (hset : registry.Solves roots set) : other.Solves otherRoots set := by
  constructor
  · intro i hi
    obtain ⟨layout, hlayout, hget⟩ := hset.stored i (h.symm.names hsup hi)
    exact ⟨layout, (h.layout? i).symm.trans hlayout, hget⟩
  · intro key layout hget
    obtain ⟨i, hi, hkey, hlayout⟩ := hset.only key layout hget
    exact ⟨i, h.names hsub hi, hkey, (h.layout? i).symm.trans hlayout⟩
  · intro env ty hty
    obtain ⟨codec, hcodec⟩ := hset.resolves env ty (h.symm.reaches hsup hty)
    exact ⟨codec, (h.resolve env ty).symm.trans hcodec⟩

end Registry.SameDefinitions

end Congruence

section Agree

/-- Two results are the same, except that where one has layouts the other may have come to the limit for a
definition that is `crowded`. -/
inductive Agree (crowded : String → Prop) :
    Except DerivationError LayoutSet → Except DerivationError LayoutSet → Prop
  | same (set : LayoutSet) : Agree crowded (.ok set) (.ok set)
  | failed (e e' : DerivationError) : Agree crowded (.error e) (.error e')
  | limitRight (set : LayoutSet) {name : String} : crowded name →
      Agree crowded (.ok set) (.error (.genericExpansion name maxExpansions))
  | limitLeft (set : LayoutSet) {name : String} : crowded name →
      Agree crowded (.error (.genericExpansion name maxExpansions)) (.ok set)

theorem Agree.flip {crowded crowded' : String → Prop} {a b : Except DerivationError LayoutSet}
    (h : Agree crowded a b) (hcrowded : ∀ name, crowded name → crowded' name) : Agree crowded' b a := by
  cases h with
  | same set => exact .same set
  | failed e e' => exact .failed e' e
  | limitRight set hname => exact .limitLeft set (hcrowded _ hname)
  | limitLeft set hname => exact .limitRight set (hcrowded _ hname)

variable {registry other : Registry}

theorem meets_plain_definitions (hdistinct : registry.Distinct) :
    Meets registry (registry.Reaches (Request.definitions.roots registry))
      (registry.Broken (registry.Reaches (Request.definitions.roots registry))) registry.definitions
      (fun _ => registry.Resolved (Request.definitions.roots registry))
      ((Request.definitions.roots registry).flatMap (registry.instances .none)) :=
  (meets_definitions (registry.reaches_closed _) hdistinct fun _ hty => .root hty).mono id
    (fun _ _ => registry.resolved_definitions hdistinct) (List.Subset.refl _)

theorem layouts_of_run_ok {t : DerivationState} (h : registry.definitions.run .initial = (.ok (), t)) :
    registry.layouts = (finishedLayouts.run t).1 := by
  unfold Registry.layouts Derivation.result
  rw [Step.run_bind_ok h]

theorem layouts_of_run_error {e : DerivationError} {t : DerivationState}
    (h : registry.definitions.run .initial = (.error e, t)) : registry.layouts = .error e := by
  unfold Registry.layouts Derivation.result
  rw [Step.run_bind_error h]

theorem agree_of_run_ok (hdistinct : registry.Distinct) (hdistinct' : other.Distinct)
    (hsame : registry.SameDefinitions other)
    (hsub : Request.definitions.roots registry ⊆ Request.definitions.roots other)
    (hsup : Request.definitions.roots other ⊆ Request.definitions.roots registry)
    (hkeys : registry.DistinctKeys (Request.definitions.roots registry)) {t : DerivationState}
    (h : registry.definitions.run .initial = (.ok (), t)) :
    Agree (registry.Crowded (registry.Reaches (Request.definitions.roots registry))) registry.layouts
      other.layouts := by
  have hsolves := (meets_plain_definitions hdistinct).solves hkeys h
  have hsolves' := hsame.solves hsub hsup hsolves
  have hmeets' := meets_plain_definitions hdistinct'
  rw [layouts_of_run_ok h, run_finishedLayouts]
  rcases h' : other.definitions.run .initial with ⟨e | _, t'⟩
  · rw [layouts_of_run_error h']
    obtain ⟨name, rfl⟩ : ∃ name, e = .genericExpansion name maxExpansions :=
      (hmeets'.error _ _ _ h').resolve_right hsolves'.not_broken
    cases t.layouts.selfContaining? with
    | none =>
      have hcrowded := other.crowded_of_limit hdistinct' .definitions (balanced_of_closed rfl fun _ => rfl) rfl h'
      exact .limitRight _ (hsame.symm.crowded hsup hcrowded)
    | some key => exact .failed _ _
  · have hother := hmeets'.solves (hsame.distinctKeys hsup hkeys) h'
    have hsorted : t.layouts.Sorted := by
      have hext := ((meets_plain_definitions hdistinct).moves .initial).1
      rw [h] at hext
      exact hext.sorted .nil
    have hsorted' : t'.layouts.Sorted := by
      have hext := (hmeets'.moves .initial).1
      rw [h'] at hext
      exact hext.sorted .nil
    have hequal : t.layouts = t'.layouts := hsorted.ext hsorted' (hsolves'.get?_eq hother)
    rw [layouts_of_run_ok h', run_finishedLayouts, hequal]
    cases t'.layouts.selfContaining? with
    | none => exact .same _
    | some key => exact .failed _ _

theorem agree (hdistinct : registry.Distinct) (hdistinct' : other.Distinct)
    (hsame : registry.SameDefinitions other)
    (hsub : Request.definitions.roots registry ⊆ Request.definitions.roots other)
    (hsup : Request.definitions.roots other ⊆ Request.definitions.roots registry)
    (hkeys : registry.DistinctKeys (Request.definitions.roots registry)) :
    Agree (registry.Crowded (registry.Reaches (Request.definitions.roots registry))) registry.layouts
      other.layouts := by
  rcases h : registry.definitions.run .initial with ⟨e | _, t⟩
  · rcases h' : other.definitions.run .initial with ⟨e' | _, t'⟩
    · rw [layouts_of_run_error h, layouts_of_run_error h']
      exact .failed e e'
    · have hagree := agree_of_run_ok hdistinct' hdistinct hsame.symm hsup hsub (hsame.distinctKeys hsup hkeys) h'
      exact hagree.flip fun _ => hsame.symm.crowded hsup
  · exact agree_of_run_ok hdistinct hdistinct' hsame hsub hsup hkeys h

end Agree

theorem roots_subset_of_perm {types other : List TypeDef} (hnames : (types.map TypeDef.name).Nodup)
    (hperm : other.Perm types) :
    Request.definitions.roots (Registry.ofTypes types)
      ⊆ Request.definitions.roots (Registry.ofTypes other) := by
  have hnames' : (other.map TypeDef.name).Nodup := (hperm.map TypeDef.name).nodup_iff.mpr hnames
  intro ty hty
  obtain ⟨d, hd, rfl⟩ := List.mem_map.mp hty
  rw [List.mem_filter, mem_defs_ofTypes hnames] at hd
  refine List.mem_map_of_mem (List.mem_filter.mpr ⟨?_, hd.2⟩)
  exact (mem_defs_ofTypes hnames').mpr (hperm.mem_iff.mpr hd.1)

theorem sameDefinitions_of_perm {types other : List TypeDef} (hnames : (types.map TypeDef.name).Nodup)
    (hperm : other.Perm types) : (Registry.ofTypes types).SameDefinitions (Registry.ofTypes other) := by
  have hnames' : (other.map TypeDef.name).Nodup := (hperm.map TypeDef.name).nodup_iff.mpr hnames
  intro name
  refine Option.ext fun d => ?_
  rw [get?_ofTypes_of_nodup hnames, get?_ofTypes_of_nodup hnames', hperm.mem_iff]

/-- The layouts of a document are the same for every order of its definitions, or there are none for any
order. -/
def Schema.Document.OrderIndependent (doc : Document) : Prop :=
  ∀ types, types.Perm doc.types →
    (∃ set, (Registry.ofTypes doc.types).layouts = .ok set ∧ (Registry.ofTypes types).layouts = .ok set)
      ∨ ∃ e e', (Registry.ofTypes doc.types).layouts = .error e ∧ (Registry.ofTypes types).layouts = .error e'

theorem Agree.same_or_failed {crowded : String → Prop} {a b : Except DerivationError LayoutSet}
    (h : Agree crowded a b) (hnone : ∀ name, ¬ crowded name) :
    (∃ set, a = .ok set ∧ b = .ok set) ∨ ∃ e e', a = .error e ∧ b = .error e' := by
  cases h with
  | same set => exact .inl ⟨set, rfl, rfl⟩
  | failed e e' => exact .inr ⟨e, e', rfl, rfl⟩
  | limitRight set hname => exact absurd hname (hnone _)
  | limitLeft set hname => exact absurd hname (hnone _)

/-- Putting the definitions of an accepted document into another order changes nothing unless one of the two
derivations comes to the limit for a definition with more instances than that; where there is none, it changes
nothing at all. -/
theorem layouts_of_perm {doc : Document} (hdoc : doc.validate = .ok ())
    (hkeys : (Registry.ofTypes doc.types).DistinctKeys
      (Request.definitions.roots (Registry.ofTypes doc.types))) :
    let registry := Registry.ofTypes doc.types
    let crowded := registry.Crowded (registry.Reaches (Request.definitions.roots registry))
    (∀ types, types.Perm doc.types → Agree crowded registry.layouts (Registry.ofTypes types).layouts)
      ∧ ((∀ name, ¬ crowded name) → doc.OrderIndependent) := by
  intro registry crowded
  have hagree : ∀ types, types.Perm doc.types →
      Agree crowded registry.layouts (Registry.ofTypes types).layouts := by
    intro types hperm
    have hnames := Document.nodup_of_validate hdoc
    have hnames' : (types.map TypeDef.name).Nodup := (hperm.map TypeDef.name).nodup_iff.mpr hnames
    exact agree (distinct_ofTypes _) (distinct_ofTypes _) (sameDefinitions_of_perm hnames hperm)
      (roots_subset_of_perm hnames hperm) (roots_subset_of_perm hnames' hperm.symm) hkeys
  exact ⟨hagree, fun hnone types hperm => (hagree types hperm).same_or_failed hnone⟩

/-- A document with no more layouts than the limit has no crowded definition. -/
theorem not_crowded_of_layouts {types : List TypeDef} {set : LayoutSet}
    (hkeys : (Registry.ofTypes types).DistinctKeys (Request.definitions.roots (Registry.ofTypes types)))
    (h : (Registry.ofTypes types).layouts = .ok set) (hlength : set.length ≤ maxExpansions) (name : String) :
    ¬ (Registry.ofTypes types).Crowded
      ((Registry.ofTypes types).Reaches (Request.definitions.roots (Registry.ofTypes types))) name := by
  obtain ⟨t, hrun⟩ := run_of_result h
  obtain ⟨_, u, hdefinitions, hfinished⟩ := Step.ok_of_run_bind hrun
  have hsolves := (meets_plain_definitions (distinct_ofTypes types)).solves hkeys hdefinitions
  rw [ok_of_finishedLayouts (congrArg Prod.fst hfinished)] at hsolves
  exact hsolves.not_crowded hkeys hlength name

/-- Definitions that refer to others before and after them. -/
theorem layouts_of_perm_reverse :
    let wrap : TypeDef := .record "Wrap" [.type "T"] [("value", .generic "T")]
    let outer : TypeDef := .record "Outer" [] [("inner", .defined "Wrap" [.type (.defined "Inner" [])])]
    let inner : TypeDef := .record "Inner" [] [("flag", .prim .bool)]
    let doc : Document := .ofTypes [wrap, outer, inner]
    let registry := Registry.ofTypes doc.types
    let roots := Request.definitions.roots registry
    doc.validate = .ok () ∧ registry.DistinctKeys roots ∧ [inner, outer, wrap].Perm doc.types
      ∧ (∀ name, ¬ registry.Crowded (registry.Reaches roots) name)
      ∧ ∃ set, set.keys = ["Inner", "Outer", "Wrap<Inner>"] ∧ registry.layouts = .ok set
        ∧ (Registry.ofTypes [inner, outer, wrap]).layouts = .ok set := by
  intro wrap outer inner doc registry roots
  obtain ⟨_, hdoc⟩ : ∃ u, doc.validate = .ok u := Step.exists_of_isOk (by decide +kernel)
  have hperm : [inner, outer, wrap].Perm doc.types := List.reverse_perm doc.types
  have hkeys : registry.DistinctKeys roots := by
    have hroots : Program.roots registry doc = roots := List.append_nil _
    rw [← hroots]
    exact distinctKeys_of_unambiguous hdoc (by decide +kernel)
  have hlayouts : registry.layouts.toOption.map LayoutSet.keys = some ["Inner", "Outer", "Wrap<Inner>"] := by
    decide +kernel
  obtain ⟨set, hset⟩ : ∃ set, registry.layouts = .ok set := Step.exists_of_isOk (by decide +kernel)
  rw [hset] at hlayouts
  have hstored : set.keys = ["Inner", "Outer", "Wrap<Inner>"] := Option.some.inj hlayouts
  have hlength : set.length ≤ maxExpansions := by
    rw [LayoutSet.length, ← List.length_map Prod.fst, ← LayoutSet.keys, hstored]
    decide
  have hnone := not_crowded_of_layouts hkeys hset hlength
  refine ⟨hdoc, hkeys, hperm, hnone, ?_⟩
  rcases (layouts_of_perm hdoc hkeys).2 hnone _ hperm with ⟨other, hother, hsame⟩ | ⟨e, _, herror, _⟩
  · rw [hset] at hother
    cases hother
    exact ⟨set, hstored, hset, hsame⟩
  · rw [hset] at herror
    cases herror

theorem not_orderIndependent {doc : Document} {types : List TypeDef} (hperm : types.Perm doc.types)
    (h : (Registry.ofTypes doc.types).layouts.toOption ≠ (Registry.ofTypes types).layouts.toOption) :
    ¬ doc.OrderIndependent := by
  intro hdoc
  rcases hdoc types hperm with ⟨set, hlayouts, hlayouts'⟩ | ⟨e, e', hlayouts, hlayouts'⟩
  · exact h (by rw [hlayouts, hlayouts'])
  · exact h (by rw [hlayouts, hlayouts']; rfl)

/-- Each word of five letters is followed by two words that begin with its last four. All 32 words of
zeros and ones are under way at once before the first of them is stored, so there is no room for a word
outside of them that leads there; after they are stored there is. And of two instances with one key the
first that is derived is the one that counts. -/
theorem order_matters :
    let word (letters : List String) : Ty := .option .byte (some (.defined "Word" (letters.map .const)))
    let words : TypeDef := .record "Word" (["A", "B", "C", "D", "E"].map (.const · "str"))
      [("zero", word ["B", "C", "D", "E", "0"]), ("one", word ["B", "C", "D", "E", "1"])]
    let inside : TypeDef := .record "Inside" [] [("word", word ["1", "1", "1", "1", "0"])]
    let outside : TypeDef := .record "Outside" [] [("word", word ["2", "1", "1", "1", "1"])]
    let byte : TypeDef := .record "u8" [] [("flag", .prim .bool)]
    let wrap : TypeDef := .record "Wrap" [.type "T"] [("value", .generic "T")]
    let plain : TypeDef := .record "Plain" [] [("wrap", .defined "Wrap" [.type (.prim (.scalar .u8))])]
    let defined : TypeDef := .record "Defined" [] [("wrap", .defined "Wrap" [.type (.defined "u8" [])])]
    ∀ doc ∈ [Document.ofTypes [words, inside, outside], .ofTypes [byte, wrap, plain, defined]],
      doc.validate.isOk = true ∧ ¬ doc.OrderIndependent := by
  intro word words inside outside byte wrap plain defined doc hdoc
  simp only [List.mem_cons, List.not_mem_nil, or_false] at hdoc
  rcases hdoc with rfl | rfl
  · have hperm : [words, outside, inside].Perm [words, inside, outside] := (List.Perm.swap ..).cons _
    exact ⟨by decide +kernel, not_orderIndependent hperm (by decide +kernel)⟩
  · have hperm : [byte, wrap, defined, plain].Perm [byte, wrap, plain, defined] :=
      ((List.Perm.swap ..).cons _).cons _
    exact ⟨by decide +kernel, not_orderIndependent hperm (by decide +kernel)⟩

end WireSchema
