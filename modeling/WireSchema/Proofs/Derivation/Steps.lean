import WireSchema.Proofs.Derivation.Resolved
import WireSchema.Proofs.Entries
import WireSchema.Proofs.Step

/-!
# What a derivation does to its state

A derivation leaves what is under way and the layouts it finds as they are,
whether it succeeds or not, and what it adds are layouts of instances. `Meets`
says this together with what a derivation answers and why it may fail; its rules
follow the building blocks of derivations. When a derivation fails, the layouts
that it added may name keys without a layout.
-/

namespace WireSchema

set_option autoImplicit false

open Schema

namespace DerivationState

theorem isKnown_iff {s : DerivationState} {key : String} :
    s.isKnown key = true ↔ (s.layouts.get? key).isSome ∨ ∃ name, (name, key) ∈ s.underWay := by
  unfold isKnown LayoutSet.contains
  simp

/-- What is under way stays so, what is known stays as it is, and layouts stay in order. -/
structure Extends (s t : DerivationState) : Prop where
  underWay : t.underWay = s.underWay
  sorted : s.layouts.Sorted → t.layouts.Sorted
  kept : ∀ key, s.isKnown key = true → t.layouts.get? key = s.layouts.get? key

variable {s t u : DerivationState}

theorem Extends.refl (s : DerivationState) : s.Extends s :=
  ⟨rfl, id, fun _ _ => rfl⟩

theorem Extends.known (h : s.Extends t) {key : String} (hkey : s.isKnown key = true) :
    t.isKnown key = true := by
  rw [isKnown_iff, h.kept key hkey, h.underWay]
  exact isKnown_iff.mp hkey

theorem Extends.trans (hst : s.Extends t) (htu : t.Extends u) : s.Extends u :=
  ⟨htu.underWay.trans hst.underWay, htu.sorted ∘ hst.sorted,
    fun key hkey => (htu.kept key (hst.known hkey)).trans (hst.kept key hkey)⟩

end DerivationState

namespace Registry

variable (registry : Registry) (G : Bindings → Ty → Prop)

/-- With a type its parts are in `G`, and what the definition of a named instance has in it. -/
structure Closed : Prop where
  part : ∀ {env ty part}, G env ty → part ∈ ty.within → G env part
  body : ∀ {env ref ty i}, G env ref → registry.instance? env ref = some i → ty ∈ registry.types i →
    G (registry.bindings i) ty

def Names (i : Instance) : Prop :=
  ∃ env ty, G env ty ∧ registry.instance? env ty = some i

/-- Something in `G` has no codec or no layout, whatever the limits. -/
def Broken : Prop :=
  (∃ env ty, G env ty ∧ ty.resolve registry env = none)
    ∨ ∃ i, registry.Names G i ∧ registry.layout? i = none

/-- What `t` has on top of `s` are layouts of named instances, with `P`. -/
def Adds (P : Instance → Prop) (s t : DerivationState) : Prop :=
  ∀ key layout, t.layouts.get? key = some layout → s.layouts.get? key = some layout ∨
    ∃ i, registry.Names G i ∧ i.key = key ∧ registry.layout? i = some layout ∧ P i

/-- All that is mentioned in an instance is known. -/
def Settled (s : DerivationState) (i : Instance) : Prop :=
  ∀ j ∈ registry.mentioned i, s.isKnown j.key = true

variable {registry G} {P P' : Instance → Prop} {s t u : DerivationState}

theorem Settled.mono {i : Instance} (h : registry.Settled s i) (hst : s.Extends t) :
    registry.Settled t i :=
  fun j hj => hst.known (h j hj)

theorem Adds.of_layouts_eq (h : t.layouts = s.layouts) : registry.Adds G P s t := by
  intro key layout hkey
  rw [h] at hkey
  exact .inl hkey

theorem Adds.trans (hst : registry.Adds G P s t) (hP : ∀ i, P i → P' i)
    (htu : registry.Adds G P' t u) : registry.Adds G P' s u := by
  intro key layout hkey
  rcases htu key layout hkey with ht | hi
  · rcases hst key layout ht with hs | ⟨i, hi, hkey, hl, hPi⟩
    · exact .inl hs
    · exact .inr ⟨i, hi, hkey, hl, hP i hPi⟩
  · exact .inr hi

theorem Adds.mono (h : registry.Adds G P s t) (hP : ∀ i, P i → P' i) : registry.Adds G P' s t :=
  h.trans hP (.of_layouts_eq rfl)

theorem reaches_closed (roots : List Ty) : registry.Closed (registry.Reaches roots) :=
  ⟨.part, .body⟩

end Registry

open Registry DerivationState

/-- `d` answers with `Q` and then knows `js`; if it fails, the limit is met or `B` holds. -/
structure Derivation.Meets (registry : Registry) (G : Bindings → Ty → Prop) (B : Prop) {α : Type}
    (d : Derivation α) (Q : α → Prop) (js : List Instance) : Prop where
  moves : ∀ s, s.Extends (d.run s).2 ∧ registry.Adds G (fun _ => True) s (d.run s).2
  ok : ∀ s a t, d.run s = (.ok a, t) →
    Q a ∧ (∀ j ∈ js, t.isKnown j.key = true) ∧ registry.Adds G (registry.Settled t) s t
  error : ∀ s e t, d.run s = (.error e, t) → (∃ name, e = .genericExpansion name maxExpansions) ∨ B

namespace Derivation

theorem run_of_result {α : Type} {d : Derivation α} {a : α} (h : d.result = .ok a) :
    ∃ t, d.run DerivationState.initial = (.ok a, t) :=
  ⟨_, Prod.ext h rfl⟩

section Rules

variable {registry : Registry} {G : Bindings → Ty → Prop} {B : Prop} {α β : Type} {Q : α → Prop}
  {js ks : List Instance}

theorem meets_pure {a : α} (h : Q a) : Meets registry G B (pure a) Q [] where
  moves s := ⟨.refl s, .of_layouts_eq rfl⟩
  ok s b t hb := by
    obtain ⟨rfl, rfl⟩ : a = b ∧ s = t := by simpa using hb
    exact ⟨h, by simp, .of_layouts_eq rfl⟩
  error s e t he := nomatch he

theorem meets_throw {e : DerivationError} (h : (∃ name, e = .genericExpansion name maxExpansions) ∨ B) :
    Meets registry G B (throw e : Derivation α) Q js where
  moves s := ⟨.refl s, .of_layouts_eq rfl⟩
  ok s b t hb := nomatch hb
  error s e' t he := by
    obtain ⟨rfl, -⟩ : e = e' ∧ s = t := by simpa using he
    exact h

theorem Meets.bind {d : Derivation α} {f : α → Derivation β} {Q' : β → Prop}
    (hd : Meets registry G B d Q js) (hf : ∀ a, Q a → Meets registry G B (f a) Q' ks) :
    Meets registry G B (d >>= f) Q' (js ++ ks) where
  moves s := by
    obtain ⟨hst, hadd⟩ := hd.moves s
    rcases hrun : d.run s with ⟨e | a, t⟩
    · rw [Step.run_bind_error hrun]
      rw [hrun] at hst hadd
      exact ⟨hst, hadd⟩
    · rw [Step.run_bind_ok hrun]
      rw [hrun] at hst hadd
      obtain ⟨htu, hadd'⟩ := (hf a (hd.ok s a t hrun).1).moves t
      exact ⟨hst.trans htu, hadd.trans (fun _ => id) hadd'⟩
  ok s b u hb := by
    obtain ⟨a, t, hrun, hb⟩ := Step.ok_of_run_bind hb
    obtain ⟨ha, hjs, hadd⟩ := hd.ok s a t hrun
    obtain ⟨hQ, hks, hadd'⟩ := (hf a ha).ok t b u hb
    have htu : t.Extends u := by
      have h := ((hf a ha).moves t).1
      rwa [hb] at h
    refine ⟨hQ, fun j hj => ?_, hadd.trans (fun i hi => hi.mono htu) hadd'⟩
    rcases List.mem_append.mp hj with hj | hj
    · exact htu.known (hjs j hj)
    · exact hks j hj
  error s e u he := by
    rcases Step.error_of_run_bind he with hrun | ⟨a, t, hrun, he⟩
    · exact hd.error s e u hrun
    · exact (hf a (hd.ok s a t hrun).1).error t e u he

theorem Meets.mono {C : Prop} {R : α → Prop} {d : Derivation α} (hd : Meets registry G B d Q js)
    (hB : B → C) (hQ : ∀ a, Q a → R a) (hjs : ks ⊆ js) : Meets registry G C d R ks where
  moves := hd.moves
  ok s a t h := by
    obtain ⟨ha, hknown, hadd⟩ := hd.ok s a t h
    exact ⟨hQ a ha, fun j hj => hknown j (hjs hj), hadd⟩
  error s e t h := (hd.error s e t h).imp id hB

theorem Meets.map {d : Derivation α} {g : α → β} {R : β → Prop} (hd : Meets registry G B d Q js)
    (h : ∀ a, Q a → R (g a)) : Meets registry G B (do return g (← d)) R js := by
  have hg := hd.bind (f := fun a => pure (g a)) fun a ha => meets_pure (h a ha)
  rwa [List.append_nil] at hg

end Rules

end Derivation

end WireSchema
