import Mathlib.Data.Set.Card
import WireSchema.Proofs.Derivation.Balance
import WireSchema.Proofs.Derivation.Complete
import WireSchema.Proofs.Derivation.Composition

/-!
# Where the limit is met

While layouts are being derived, the keys that are under way are keys of
instances that the derivation came to, each once. An instance is refused if the
limit is used up by others of its definition; counted with the one that is
refused these are more than the limit. So only a definition that is crowded, one
with more instances to come to than may be under way together, makes a
derivation give up at the limit. That a crowded definition does so is not said:
its instances need not be under way together.
-/

namespace WireSchema

set_option autoImplicit false

open Schema Registry WireSchema.Derivation DerivationState

/-- More instances of a definition are named in `G` than may be under way at a time. -/
def Registry.Crowded (registry : Registry) (G : Bindings → Ty → Prop) (name : String) : Prop :=
  (maxExpansions : ℕ∞) < {i | registry.Names G i ∧ i.name = name}.encard

/-- The state is balanced, and instances named in `G` are under way in it. -/
structure DerivationState.Traced (registry : Registry) (G : Bindings → Ty → Prop) (s : DerivationState) :
    Prop where
  balanced : s.Balanced registry
  named : ∀ name key, (name, key) ∈ s.underWay → ∃ i, registry.Names G i ∧ i.name = name ∧ i.key = key

section States

variable {registry : Registry} {G : Bindings → Ty → Prop} {s t : DerivationState} {i : Instance}

theorem Registry.Names.definition (hi : registry.Names G i) :
    ∃ d, registry.get? i.name = some d ∧ i.args.length = d.params.length := by
  obtain ⟨env, ty, -, hi⟩ := hi
  cases ty with
  | defined name args =>
    obtain ⟨d, arguments, hd, hbinds, rfl⟩ := binds_of_instance? hi
    exact ⟨d, hd, hbinds.length_arguments⟩
  | _ => cases hi

namespace DerivationState.Traced

theorem of_closed (hs : s.Balanced registry) (hopen : s.underWay = []) : s.Traced registry G where
  balanced := hs
  named name key h := by
    rw [hopen] at h
    cases h

theorem start (hs : s.Traced registry G) (hi : registry.Names G i) (hnew : ¬ s.isKnown i.key = true)
    (hroom : s.expansions i.name < maxExpansions) : (s.start i.name i.key).Traced registry G where
  balanced := by
    obtain ⟨d, hd, hargs⟩ := hi.definition
    have hname : d.name = i.name := name_of_get? hd
    rw [← hname] at hd
    have hkey : instanceKey d.name (i.args.map Argument.text) = i.key := by
      rw [hname]
      rfl
    have hlabels : (i.args.map Argument.text).length = d.params.length := by rwa [List.length_map]
    have hstart := hs.balanced.start hd hlabels (by rwa [hkey]) (by rwa [hname])
    rwa [hkey, hname] at hstart
  named name key h := by
    rcases List.mem_cons.mp h with heq | h
    · cases heq
      exact ⟨i, hi, rfl, rfl⟩
    · exact hs.named name key h

/-- Back to what was under way before the layout was started, and with the layout. -/
theorem stored (hs : s.Traced registry G) (ht : t.Traced registry G) {name key : String}
    (hopen : t.underWay = (s.start name key).underWay) (layout : Layout) :
    ((t.finish name key).store key layout).Traced registry G where
  balanced := (ht.balanced.finish hopen).store key layout
  named other key' h := by
    refine hs.named other key' ?_
    rw [← underWay_finish_start hopen]
    exact h

end DerivationState.Traced

/-- The keys that are under way and the one that is refused are keys of different instances. -/
theorem Registry.crowded_of_refused (hs : s.Traced registry G) (hi : registry.Names G i)
    (hnew : ¬ s.isKnown i.key = true) (hfull : maxExpansions ≤ s.expansions i.name) :
    registry.Crowded G i.name := by
  have hnodup : (i.key :: s.openKeys i.name).Nodup := by
    refine List.nodup_cons.mpr ⟨fun hopen => hnew ?_, hs.balanced.nodup_openKeys i.name⟩
    exact isKnown_iff.mpr (.inr ⟨i.name, mem_openKeys.mp hopen⟩)
  have hkeys : ((i.key :: s.openKeys i.name).toFinset : Set String)
      ⊆ Instance.key '' {j | registry.Names G j ∧ j.name = i.name} := by
    intro key hkey
    rw [List.coe_toFinset] at hkey
    rcases List.mem_cons.mp hkey with rfl | hopen
    · exact ⟨i, ⟨hi, rfl⟩, rfl⟩
    · obtain ⟨j, hj, hname, hjkey⟩ := hs.named i.name key (mem_openKeys.mp hopen)
      exact ⟨j, ⟨hj, hname⟩, hjkey⟩
  rw [hs.balanced.counted] at hfull
  calc (maxExpansions : ℕ∞)
    _ < ((i.key :: s.openKeys i.name).length : ℕ∞) := by exact_mod_cast Nat.lt_succ_of_le hfull
    _ = ((i.key :: s.openKeys i.name).toFinset : Set String).encard := by
      rw [Set.encard_coe_eq_coe_finsetCard, List.toFinset_card_of_nodup hnodup]
    _ ≤ (Instance.key '' {j | registry.Names G j ∧ j.name = i.name}).encard := Set.encard_le_encard hkeys
    _ ≤ {j | registry.Names G j ∧ j.name = i.name}.encard := Set.encard_image_le _ _

end States

/-- From a traced state in which there is room for `fuel` more layouts inside of each other, a run of `d`
that succeeds leaves open what was open, and one that fails at the limit met a crowded definition. -/
structure Derivation.StopsAtCrowds (registry : Registry) (G : Bindings → Ty → Prop) (fuel : Nat) {α : Type}
    (d : Derivation α) : Prop where
  ok : ∀ s a t, s.Traced registry G → registry.nesting ≤ fuel + s.underWay.length → d.run s = (.ok a, t) →
    t.Traced registry G ∧ t.underWay = s.underWay
  limit : ∀ s name limit t, s.Traced registry G → registry.nesting ≤ fuel + s.underWay.length →
    d.run s = (.error (.genericExpansion name limit), t) → registry.Crowded G name

namespace Derivation

section Rules

variable {registry : Registry} {G : Bindings → Ty → Prop} {fuel : Nat}

theorem stops_throw {α : Type} {e : DerivationError} (h : ∀ name limit, e ≠ .genericExpansion name limit) :
    StopsAtCrowds registry G fuel (throw e : Derivation α) where
  ok s a t _ _ ha := nomatch ha
  limit s name limit t _ _ he := by
    have heq : e = .genericExpansion name limit ∧ s = t := by simpa using he
    exact absurd heq.1 (h name limit)

theorem composes_stops : Composes (@StopsAtCrowds registry G fuel) where
  answer a :=
    { ok := by
        intro s b t hs _ hb
        obtain ⟨-, rfl⟩ : a = b ∧ s = t := by simpa using hb
        exact ⟨hs, rfl⟩
      limit := fun _ _ _ _ _ _ h => nomatch h }
  misuse he := stops_throw fun name limit heq => by
    subst heq
    exact he
  sequence {α β d f} hd hf :=
    { ok := by
        intro s b u hs hroom hb
        obtain ⟨a, t, hrun, hb⟩ := Step.ok_of_run_bind hb
        obtain ⟨ht, hopen⟩ := hd.ok s a t hs hroom hrun
        obtain ⟨hu, hsame⟩ := (hf a ⟨s, t, hrun⟩).ok t b u ht (by rwa [hopen]) hb
        exact ⟨hu, hsame.trans hopen⟩
      limit := by
        intro s name limit u hs hroom he
        rcases Step.error_of_run_bind he with hrun | ⟨a, t, hrun, he⟩
        · exact hd.limit s name limit u hs hroom hrun
        · obtain ⟨ht, hopen⟩ := hd.ok s a t hs hroom hrun
          exact (hf a ⟨s, t, hrun⟩).limit t name limit u ht (by rwa [hopen]) he }

end Rules

section Layouts

variable {registry : Registry} {G : Bindings → Ty → Prop} {fuel : Nat} {derive : LayoutDeriver}
  {env : Bindings}

/-- Every layout of an instance stops at crowds if there is room for `fuel` more, itself counted. -/
def LayoutsStop (registry : Registry) (G : Bindings → Ty → Prop) (fuel : Nat) (derive : LayoutDeriver) : Prop :=
  ∀ i d, registry.Names G i → registry.get? i.name = some d →
    StopsAtCrowds registry G fuel (derive d (registry.bindings i) i.key)

theorem stops_instantiate (h : LayoutsStop registry G fuel derive) {i : Instance} (hi : registry.Names G i)
    {d : TypeDef} (hd : registry.get? i.name = some d) :
    StopsAtCrowds registry G (fuel + 1)
      (instantiate derive d (registry.bindings i) (i.args.map Argument.text)) := by
  have hinside : ∀ s : DerivationState, registry.nesting ≤ fuel + 1 + s.underWay.length →
      registry.nesting ≤ fuel + (s.start i.name i.key).underWay.length := by
    intro s hroom
    rwa [Nat.add_assoc, Nat.add_comm 1] at hroom
  constructor
  case ok =>
    intro s codec u hs hroom hu
    cases instantiates_instance hd hu with
    | known _ => exact ⟨hs, rfl⟩
    | stored hnew hlimit hrun =>
      obtain ⟨ht, hopen⟩ := (h i d hi hd).ok _ _ _ (hs.start hi hnew hlimit) (hinside s hroom) hrun
      exact ⟨hs.stored ht hopen _, underWay_finish_start hopen⟩
  case limit =>
    intro s name limit u hs hroom hu
    cases instantiates_instance hd hu with
    | refused hnew hfull => exact crowded_of_refused hs hi hnew hfull
    | abandoned hnew hlimit hrun =>
      exact (h i d hi hd).limit _ _ _ _ (hs.start hi hnew hlimit) (hinside s hroom) hrun

theorem covers_stops (hclosed : registry.Closed G) (hd : DerivesLayouts registry G derive)
    (hlayouts : LayoutsStop registry G fuel derive) :
    Covers (@StopsAtCrowds registry G (fuel + 1)) registry derive env (G env) where
  part {ty part} hG hpart := hclosed.part hG (mem_within_iff.mpr (.inr ⟨part, hpart, part.self_mem_within⟩))
  unresolved _ _ _ := stops_throw (by simp)
  undefined _ _ _ := stops_throw (by simp)
  bound hG hget hlen _ _ _ _ _ hrun := by
    obtain ⟨i, hi, rfl, heq⟩ := names_of_bindArgs hclosed hd hG hget hlen hrun
    cases heq
    exact stops_instantiate hlayouts hi hget

theorem layoutsStop (hclosed : registry.Closed G) (fuel : Nat) :
    LayoutsStop registry G fuel (registry.layoutWithin fuel) := by
  induction fuel with
  | zero =>
    -- as many layouts as there can be are under way already
    have hnone : ∀ s : DerivationState, s.Traced registry G → ¬ registry.nesting ≤ 0 + s.underWay.length := by
      intro s hs hroom
      have hbound := hs.balanced.length_underWay_le
      rw [Registry.nesting] at hroom
      omega
    exact fun i d _ _ => ⟨fun s _ _ hs hroom => absurd hroom (hnone s hs),
      fun s _ _ _ hs hroom => absurd hroom (hnone s hs)⟩
  | succ fuel ih =>
    intro i d hi hd
    rw [layoutWithin]
    refine composes_stops.layout (fun ty hty path => ?_) i.key
    obtain ⟨env, ref, hG, href⟩ := hi
    have hbody : G (registry.bindings i) ty := hclosed.body hG href (by rwa [types_eq hd])
    exact composes_stops.type (covers_stops hclosed (derivesLayouts_layoutWithin hclosed fuel) ih) hbody path

end Layouts

section Requests

variable {registry : Registry} {G : Bindings → Ty → Prop}

theorem stops_definitions (hclosed : registry.Closed G) (hdistinct : registry.Distinct)
    (h : ∀ ty ∈ Request.definitions.roots registry, G .none ty) :
    StopsAtCrowds registry G (registry.nesting + 1) registry.definitions := by
  refine composes_stops.definitions fun d hd hparams => ?_
  have hroot : Ty.defined d.name [] ∈ Request.definitions.roots registry :=
    List.mem_map.mpr ⟨d, List.mem_filter.mpr ⟨hd, by simp [hparams]⟩, rfl⟩
  have hi := stops_instantiate (layoutsStop hclosed registry.nesting) (i := ⟨d.name, []⟩)
    ⟨_, _, h _ hroot, instance?_plain hdistinct hd hparams⟩ (hdistinct d hd)
  rwa [bindings_plain hdistinct hd hparams] at hi

theorem stops_codec (hclosed : registry.Closed G) {ty : Ty} (h : G .none ty) (path : String) :
    StopsAtCrowds registry G (registry.nesting + 1) (registry.codec (some ty) path) :=
  composes_stops.type
    (covers_stops hclosed (derivesLayouts_deriveLayout hclosed) (layoutsStop hclosed registry.nesting)) h path

theorem stops_request (hclosed : registry.Closed G) (hdistinct : registry.Distinct) (request : Request)
    (h : ∀ ty ∈ request.roots registry, G .none ty) :
    StopsAtCrowds registry G (registry.nesting + 1) (request.derive registry) := by
  cases request with
  | definitions => exact stops_definitions hclosed hdistinct h
  | codec ty path =>
    cases ty with
    | none => exact stops_throw (by simp)
    | some ty => exact composes_stops.map (stops_codec hclosed (h ty (List.mem_singleton_self ty)) path) _
  | fields listed path =>
    refine composes_stops.map (composes_stops.fields (fun entry hentry path => ?_) path) fun _ => ()
    obtain ⟨f, hf, rfl⟩ := List.mem_map.mp hentry
    exact stops_codec hclosed (h f.ty (List.mem_map_of_mem hf)) path

end Requests

end Derivation

section Limits

variable {registry : Registry}

/-- A request that is given up on at the limit leads to a crowded definition. -/
theorem Registry.crowded_of_limit (hdistinct : registry.Distinct) (request : Request) {s t : DerivationState}
    (hs : s.Balanced registry) (hopen : s.underWay = []) {name : String} {limit : Nat}
    (h : (request.derive registry).run s = (.error (.genericExpansion name limit), t)) :
    registry.Crowded (registry.Reaches (request.roots registry)) name := by
  have hstops := stops_request (registry.reaches_closed _) hdistinct request fun _ hty => .root hty
  exact hstops.limit s name limit t (.of_closed hs hopen) (by omega) h

/-- Where keys tell instances apart each has a layout of its own, so that a crowded definition makes for more
layouts than the limit. -/
theorem Registry.Solves.not_crowded {roots : List Ty} {set : LayoutSet} (hset : registry.Solves roots set)
    (hkeys : registry.DistinctKeys roots) (hlength : set.length ≤ maxExpansions) (name : String) :
    ¬ registry.Crowded (registry.Reaches roots) name := by
  have hinj : Set.InjOn Instance.key {i | registry.Names (registry.Reaches roots) i ∧ i.name = name} :=
    fun i hi j hj => hkeys i j hi.1 hj.1
  have hstored : Instance.key '' {i | registry.Names (registry.Reaches roots) i ∧ i.name = name}
      ⊆ (set.keys.toFinset : Set String) := by
    rintro key ⟨i, ⟨hi, -⟩, rfl⟩
    obtain ⟨layout, -, hget⟩ := hset.stored i hi
    rw [List.coe_toFinset]
    exact LayoutSet.mem_keys_of_get? hget
  have hcard : set.keys.toFinset.card ≤ maxExpansions := by
    refine (List.toFinset_card_le _).trans ?_
    rwa [LayoutSet.keys, List.length_map]
  rw [Crowded, not_lt]
  calc {i | registry.Names (registry.Reaches roots) i ∧ i.name = name}.encard
    _ = (Instance.key '' {i | registry.Names (registry.Reaches roots) i ∧ i.name = name}).encard :=
      hinj.encard_image.symm
    _ ≤ (set.keys.toFinset : Set String).encard := Set.encard_le_encard hstored
    _ = (set.keys.toFinset.card : ℕ∞) := Set.encard_coe_eq_coe_finsetCard _
    _ ≤ (maxExpansions : ℕ∞) := by exact_mod_cast hcard

end Limits

end WireSchema
