import WireSchema.Proofs.Derivation.Programs

/-!
# All that is come to is stored

A derivation that starts from nothing and succeeds has stored the layout of
every instance that is come to from its roots, and nothing else, provided that
no two of these instances have one key. The induction is on how a type is come
to: what mentions an instance is stored, so the instance is known, and at the
end all that is known is stored.
-/

namespace WireSchema

set_option autoImplicit false

open Schema Registry WireSchema.Derivation DerivationState

section Complete

variable {registry : Registry} {roots : List Ty}

/-- No two instances that are come to have one key. -/
def Registry.DistinctKeys (registry : Registry) (roots : List Ty) : Prop :=
  ∀ i j, registry.Names (registry.Reaches roots) i → registry.Names (registry.Reaches roots) j →
    i.key = j.key → i = j

/-- The set holds the layouts of the instances that are come to, and nothing else; all that is come to
has a codec. -/
structure Registry.Solves (registry : Registry) (roots : List Ty) (set : LayoutSet) : Prop where
  stored : ∀ i, registry.Names (registry.Reaches roots) i →
    ∃ layout, registry.layout? i = some layout ∧ set.get? i.key = some layout
  only : ∀ key layout, set.get? key = some layout →
    ∃ i, registry.Names (registry.Reaches roots) i ∧ i.key = key ∧ registry.layout? i = some layout
  resolves : ∀ env ty, registry.Reaches roots env ty → ∃ codec, ty.resolve registry env = some codec

/-- A state in which nothing is under way, the roots are known, and what is stored is settled. -/
theorem solves_of_settled (hkeys : registry.DistinctKeys roots) {t : DerivationState}
    (hdone : t.underWay = [])
    (hadds : registry.Adds (registry.Reaches roots) (registry.Settled t) .initial t)
    (hroots : ∀ j ∈ roots.flatMap (registry.instances .none), t.isKnown j.key = true)
    (hresolve : registry.Resolved roots) : registry.Solves roots t.layouts := by
  have hclosed := registry.reaches_closed roots
  have hstored : ∀ key layout, t.layouts.get? key = some layout → ∃ i,
      registry.Names (registry.Reaches roots) i ∧ i.key = key ∧ registry.layout? i = some layout
        ∧ registry.Settled t i := by
    intro key layout hget
    rcases hadds key layout hget with hnil | hi
    · cases hnil
    · exact hi
  -- what is known is stored, for nothing is under way
  have hknown : ∀ i, registry.Names (registry.Reaches roots) i → t.isKnown i.key = true →
      ∃ layout, registry.layout? i = some layout ∧ t.layouts.get? i.key = some layout
        ∧ registry.Settled t i := by
    intro i hi hk
    rw [isKnown_iff, hdone] at hk
    rcases hk with hk | ⟨_, hk⟩
    · obtain ⟨layout, hget⟩ := Option.isSome_iff_exists.mp hk
      obtain ⟨j, hj, hjkey, hlayout, hsettled⟩ := hstored _ _ hget
      obtain rfl := hkeys j i hj hi hjkey
      exact ⟨layout, hlayout, hget, hsettled⟩
    · cases hk
  have hreach : ∀ env ty, registry.Reaches roots env ty →
      (∀ i ∈ registry.instances env ty, t.isKnown i.key = true)
        ∧ ∃ codec, ty.resolve registry env = some codec := by
    intro env ty h
    induction h with
    | @root ty hty =>
      exact ⟨fun i hi => hroots i (List.mem_flatMap.mpr ⟨ty, hty, hi⟩), hresolve ty hty⟩
    | part _ hpart ih => exact ⟨fun i hi => ih.1 i (instances_subset hpart hi), resolve_within ih.2 hpart⟩
    | @body env ref ty i href hi hty ih =>
      obtain ⟨layout, hlayout, -, hsettled⟩ := hknown i ⟨env, ref, href, hi⟩ (ih.1 i (mem_instances hi))
      exact ⟨fun j hj => hsettled j (List.mem_flatMap.mpr ⟨ty, hty, hj⟩), Registry.codec_of_layout? hlayout hty⟩
  constructor
  · rintro i ⟨env, ref, href, hi⟩
    obtain ⟨layout, hlayout, hget, -⟩ := hknown i ⟨env, ref, href, hi⟩
      ((hreach env ref href).1 i (mem_instances hi))
    exact ⟨layout, hlayout, hget⟩
  · intro key layout hget
    obtain ⟨i, hi, hkey, hlayout, -⟩ := hstored key layout hget
    exact ⟨i, hi, hkey, hlayout⟩
  · exact fun env ty h => (hreach env ty h).2

theorem Derivation.Meets.solves {B : Prop} {α : Type} {d : Derivation α} {a : α} {t : DerivationState}
    (hd : Meets registry (registry.Reaches roots) B d
      (fun _ => registry.Resolved roots)
      (roots.flatMap (registry.instances .none)))
    (hkeys : registry.DistinctKeys roots) (h : d.run .initial = (.ok a, t)) :
    registry.Solves roots t.layouts := by
  obtain ⟨hresolve, hroots, hadds⟩ := hd.ok _ _ _ h
  have hext := (hd.moves .initial).1
  rw [h] at hext
  exact solves_of_settled hkeys hext.underWay hadds hroots hresolve

theorem Registry.Solves.not_broken {set : LayoutSet} (h : registry.Solves roots set) :
    ¬ registry.Broken (registry.Reaches roots) := by
  rintro (⟨env, ty, hty, hnone⟩ | ⟨i, hi, hnone⟩)
  · obtain ⟨codec, hcodec⟩ := h.resolves env ty hty
    rw [hnone] at hcodec
    cases hcodec
  · obtain ⟨layout, hlayout, -⟩ := h.stored i hi
    rw [hnone] at hlayout
    cases hlayout

/-- Two sets for the same roots hold the same layouts. -/
theorem Registry.Solves.get?_eq {set other : LayoutSet} (hset : registry.Solves roots set)
    (hother : registry.Solves roots other) (key : String) :
    set.get? key = other.get? key := by
  have hsub : ∀ {set other : LayoutSet}, registry.Solves roots set → registry.Solves roots other →
      ∀ layout, set.get? key = some layout → other.get? key = some layout := by
    intro set other hset hother layout hget
    obtain ⟨i, hi, rfl, hlayout⟩ := hset.only key layout hget
    obtain ⟨layout', hlayout', hget'⟩ := hother.stored i hi
    rw [hlayout] at hlayout'
    cases hlayout'
    exact hget'
  exact Option.ext fun layout => ⟨hsub hset hother layout, hsub hother hset layout⟩

end Complete

/-- The layouts of a document are those of the instances that its types and instructions come to. -/
theorem Program.solves_of_derive {doc : Document} {set : LayoutSet} {entries : List InstructionEntry}
    (hkeys : (Registry.ofTypes doc.types).DistinctKeys (Program.roots (Registry.ofTypes doc.types) doc))
    (h : Program.derive doc = .ok (set, entries)) :
    (Registry.ofTypes doc.types).Solves (Program.roots (Registry.ofTypes doc.types) doc) set := by
  obtain ⟨s, t, hs, ht, hset⟩ := Program.runs_of_derive h
  have hrun := (Step.run_bind_ok (f := fun _ => doc.instructions.mapM (Program.instructionEntry _)) hs).trans ht
  rw [← ok_of_finishedLayouts hset]
  exact (Program.meets_roots (Registry.distinct_ofTypes doc.types) doc).solves hkeys hrun

end WireSchema
