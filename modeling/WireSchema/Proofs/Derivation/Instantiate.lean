import WireSchema.Proofs.Derivation.Steps

/-!
# One instance

An instance that is known is not derived again. Otherwise its layout is derived
while its key is under way, unless too many of its kind are under way already,
and stored when that has worked.
-/

namespace WireSchema

set_option autoImplicit false

open Schema DerivationState

theorem Registry.name_of_get? {registry : Registry} {name : String} {d : TypeDef}
    (h : registry.get? name = some d) : d.name = name := by
  have := List.find?_some h
  exact of_decide_eq_true this

namespace DerivationState

@[simp] theorem isKnown_start {s : DerivationState} {name key other : String} :
    (s.start name key).isKnown other = true ↔ s.isKnown other = true ∨ other = key := by
  rw [isKnown_iff, isKnown_iff]
  simp only [layouts_start, underWay_start, List.mem_cons, Prod.mk.injEq, exists_or]
  constructor
  · rintro (h | ⟨_, _, rfl⟩ | h)
    · exact .inl (.inl h)
    · exact .inr rfl
    · exact .inl (.inr h)
  · rintro ((h | h) | rfl)
    · exact .inl h
    · exact .inr (.inr h)
    · exact .inr (.inl ⟨name, rfl, rfl⟩)

/-- Going back from a derivation that started with `s.start`. -/
theorem extends_finish {s t : DerivationState} {name key : String}
    (h : (s.start name key).Extends t) : s.Extends (t.finish name key) where
  underWay := by simp [h.underWay]
  sorted := h.sorted
  kept other hother := h.kept other (isKnown_start.mpr (.inl hother))

def store (s : DerivationState) (key : String) (layout : Layout) : DerivationState :=
  { s with layouts := s.layouts.insert key layout }

theorem extends_store {s t : DerivationState} {key : String} {layout : Layout}
    (hkey : ¬ s.isKnown key = true) (h : s.Extends t) : s.Extends (t.store key layout) where
  underWay := h.underWay
  sorted hs := Keyed.sorted_insert key layout (h.sorted hs)
  kept other hother := by
    have hne : other ≠ key := fun heq => hkey (heq ▸ hother)
    exact (LayoutSet.get?_insert_of_ne _ hne _).trans (h.kept other hother)

@[simp] theorem get?_store (s : DerivationState) (key : String) (layout : Layout) :
    (s.store key layout).layouts.get? key = some layout :=
  LayoutSet.get?_insert_self _ _ _

theorem get?_store_of_ne (s : DerivationState) {key other : String} (h : other ≠ key)
    (layout : Layout) : (s.store key layout).layouts.get? other = s.layouts.get? other :=
  LayoutSet.get?_insert_of_ne _ h _

theorem isKnown_finish {t : DerivationState} (name key : String) {other : String}
    (h : t.isKnown other = true) : (t.finish name key).isKnown other = true ∨ other = key := by
  by_cases hne : other = key
  · exact .inr hne
  · refine .inl ?_
    rw [isKnown_iff] at h ⊢
    refine h.imp id fun ⟨n, hn⟩ => ⟨n, ?_⟩
    rw [underWay_finish]
    exact (List.mem_erase_of_ne fun heq => hne (Prod.ext_iff.mp heq).2).mpr hn

@[simp] theorem isKnown_store_self (s : DerivationState) (key : String) (layout : Layout) :
    (s.store key layout).isKnown key = true :=
  isKnown_iff.mpr (.inl (by simp))

theorem isKnown_store {t : DerivationState} {name key other : String} {layout : Layout}
    (h : t.isKnown other = true) : ((t.finish name key).store key layout).isKnown other = true := by
  by_cases hne : other = key
  · rw [hne]
    exact isKnown_store_self _ key layout
  · have hfinish := (isKnown_finish name key h).resolve_right hne
    rw [isKnown_iff] at hfinish ⊢
    rwa [get?_store_of_ne _ hne]

end DerivationState

theorem Registry.Adds.store {registry : Registry} {G : Bindings → Ty → Prop} {P : Instance → Prop}
    {s t : DerivationState} {i : Instance} {layout : Layout} {name : String}
    (hi : registry.Names G i) (hlayout : registry.layout? i = some layout) (hP : P i)
    (h : registry.Adds G P (s.start name i.key) t) :
    registry.Adds G P s ((t.finish name i.key).store i.key layout) := by
  intro key other hother
  by_cases hne : key = i.key
  · subst hne
    obtain rfl : layout = other := by simpa using hother
    exact .inr ⟨i, hi, rfl, hlayout, hP⟩
  · rw [get?_store_of_ne _ hne] at hother
    exact h key other hother

/-- What comes of a derivation of a layout that was started with `s.start`. -/
def settle (name key : String) : Except DerivationError Layout × DerivationState →
    Except DerivationError Codec × DerivationState
  | (.ok layout, t) => (.ok (.defined key), (t.finish name key).store key layout)
  | (.error e, t) => (.error e, t.finish name key)

section Run

variable (derive : LayoutDeriver) (d : TypeDef) (bindings : Bindings) (labels : List String)
  (s : DerivationState)

theorem run_instantiate :
    (instantiate derive d bindings labels).run s
      = if s.isKnown (instanceKey d.name labels) then (.ok (.defined (instanceKey d.name labels)), s)
        else if maxExpansions ≤ s.expansions d.name then
          (.error (.genericExpansion d.name maxExpansions), s)
        else settle d.name (instanceKey d.name labels)
          ((derive d bindings (instanceKey d.name labels)).run
            (s.start d.name (instanceKey d.name labels))) := by
  generalize hkey : instanceKey d.name labels = key
  unfold instantiate
  simp only [Step.run_get_bind, hkey]
  by_cases hknown : s.isKnown key = true
  · simp only [hknown, if_true]
    rfl
  · simp only [hknown]
    show ((get : Derivation DerivationState) >>= _).run s = _
    rw [Step.run_get_bind]
    by_cases hlimit : maxExpansions ≤ s.expansions d.name
    · rw [if_pos hlimit]
      simp only [hlimit, if_true]
      rfl
    · rw [if_neg hlimit]
      simp only [hlimit, if_false]
      show ((modify _ : Derivation PUnit) >>= _).run s = _
      rcases hrun : (derive d bindings key).run (s.start d.name key) with ⟨result, t⟩
      have houtcome : (Derivation.outcome (derive d bindings key)).run (s.start d.name key)
          = (.ok result, t) := by
        show (Except.ok ((derive d bindings key).run _).1, ((derive d bindings key).run _).2) = _
        rw [hrun]
      rw [Step.run_modify_bind, Step.run_bind_ok houtcome, Step.run_modify_bind]
      cases result <;> rfl

/-- What comes of asking for an instance in `s`: it is known, or too many are under way, or its layout is
derived and stored, or that fails. -/
inductive Instantiates (run : DerivationState → Except DerivationError Layout × DerivationState)
    (name key : String) (s : DerivationState) : Except DerivationError Codec → DerivationState → Prop
  | known : s.isKnown key = true → Instantiates run name key s (.ok (.defined key)) s
  | refused : ¬ s.isKnown key = true → maxExpansions ≤ s.expansions name →
      Instantiates run name key s (.error (.genericExpansion name maxExpansions)) s
  | stored {layout : Layout} {t : DerivationState} : ¬ s.isKnown key = true →
      s.expansions name < maxExpansions → run (s.start name key) = (.ok layout, t) →
      Instantiates run name key s (.ok (.defined key)) ((t.finish name key).store key layout)
  | abandoned {e : DerivationError} {t : DerivationState} : ¬ s.isKnown key = true →
      s.expansions name < maxExpansions → run (s.start name key) = (.error e, t) →
      Instantiates run name key s (.error e) (t.finish name key)

theorem instantiates {derive d bindings labels s} {result : Except DerivationError Codec}
    {u : DerivationState} (h : (instantiate derive d bindings labels).run s = (result, u)) :
    Instantiates (derive d bindings (instanceKey d.name labels)).run d.name (instanceKey d.name labels) s
      result u := by
  rw [run_instantiate] at h
  split at h
  · next hknown =>
    cases h
    exact .known hknown
  · next hknown =>
    split at h
    · next hlimit =>
      cases h
      exact .refused hknown hlimit
    · next hlimit =>
      have hroom := Nat.lt_of_not_le hlimit
      rcases hrun : (derive d bindings (instanceKey d.name labels)).run
        (s.start d.name (instanceKey d.name labels)) with ⟨e | layout, t⟩
      · rw [hrun] at h
        cases h
        exact .abandoned hknown hroom hrun
      · rw [hrun] at h
        cases h
        exact .stored hknown hroom hrun

end Run

namespace Derivation

variable {registry : Registry} {G : Bindings → Ty → Prop}

/-- The run of the derivation of an instance, with its own name and key. -/
theorem instantiates_instance {derive : LayoutDeriver} {d : TypeDef} {i : Instance}
    (hd : registry.get? i.name = some d) {s u : DerivationState} {result : Except DerivationError Codec}
    (h : (instantiate derive d (registry.bindings i) (i.args.map Argument.text)).run s = (result, u)) :
    Instantiates (derive d (registry.bindings i) i.key).run i.name i.key s result u := by
  have hname : d.name = i.name := Registry.name_of_get? hd
  have hkey : instanceKey d.name (i.args.map Argument.text) = i.key := by
    rw [hname]
    rfl
  have hcases := instantiates h
  rwa [hkey, hname] at hcases

/-- An instance is known after it was asked for; if its layout had to be derived, it is stored. -/
theorem meets_instantiate {derive : LayoutDeriver} {d : TypeDef} {i : Instance}
    (hi : registry.Names G i) (hd : registry.get? i.name = some d)
    (h : Meets registry G (registry.Broken G) (derive d (registry.bindings i) i.key)
      (fun layout => registry.layout? i = some layout) (registry.mentioned i)) :
    Meets registry G (registry.Broken G)
      (instantiate derive d (registry.bindings i) (i.args.map Argument.text))
      (fun codec => codec = .defined i.key) [i] := by
  have hmoves : ∀ s result t, (derive d (registry.bindings i) i.key).run s = (result, t) →
      s.Extends t ∧ registry.Adds G (fun _ => True) s t := by
    intro s result t hrun
    have hst := h.moves s
    rwa [hrun] at hst
  constructor
  case moves =>
    intro s
    rcases hu : (instantiate derive d (registry.bindings i) (i.args.map Argument.text)).run s with ⟨result, u⟩
    cases instantiates_instance hd hu with
    | known _ => exact ⟨.refl s, .of_layouts_eq rfl⟩
    | refused _ _ => exact ⟨.refl s, .of_layouts_eq rfl⟩
    | stored hknown _ hrun =>
      obtain ⟨hext, hadd⟩ := hmoves _ _ _ hrun
      exact ⟨extends_store hknown (extends_finish hext),
        Registry.Adds.store hi (h.ok _ _ _ hrun).1 trivial hadd⟩
    | abandoned _ _ hrun =>
      obtain ⟨hext, hadd⟩ := hmoves _ _ _ hrun
      exact ⟨extends_finish hext, hadd⟩
  case ok =>
    intro s codec u hu
    cases instantiates_instance hd hu with
    | known hknown => exact ⟨rfl, by simpa using hknown, .of_layouts_eq rfl⟩
    | stored _ _ hrun =>
      obtain ⟨hlayout, hknown', hadd⟩ := h.ok _ _ _ hrun
      refine ⟨rfl, by simp, ?_⟩
      refine Registry.Adds.store hi hlayout (fun j hj => isKnown_store (hknown' j hj)) ?_
      exact hadd.mono fun j hj k hk => isKnown_store (hj k hk)
  case error =>
    intro s e u hu
    cases instantiates_instance hd hu with
    | refused _ _ => exact .inl ⟨_, rfl⟩
    | abandoned _ _ hrun => exact h.error _ _ _ hrun

end Derivation

end WireSchema
