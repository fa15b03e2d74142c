/-!
# Steps that may fail

Encoders, decoders and derivations are all functions on a state that return a
result or an error, and a state either way. Here is what a run of each building
block does, how a run of a sequence splits into runs of its parts, and which
errors a sequence can fail with.
-/

namespace WireSchema.Step

set_option autoImplicit false

variable {ε σ α β : Type}

@[simp] theorem run_pure (a : α) (s : σ) : (pure a : ExceptT ε (StateM σ) α).run s = (.ok a, s) := rfl

@[simp] theorem run_throw (e : ε) (s : σ) :
    (throw e : ExceptT ε (StateM σ) α).run s = (.error e, s) := rfl

@[simp] theorem run_get (s : σ) : (get : ExceptT ε (StateM σ) σ).run s = (.ok s, s) := rfl

@[simp] theorem run_modify (f : σ → σ) (s : σ) :
    (modify f : ExceptT ε (StateM σ) PUnit).run s = (.ok ⟨⟩, f s) := rfl

@[simp] theorem run_get_bind (f : σ → ExceptT ε (StateM σ) β) (s : σ) : (get >>= f).run s = (f s).run s := rfl

@[simp] theorem run_modify_bind (g : σ → σ) (f : PUnit → ExceptT ε (StateM σ) β) (s : σ) :
    (modify g >>= f).run s = (f ⟨⟩).run (g s) := rfl

/-- What runs come to is compared by results and by states. -/
@[simp] theorem outcome_inj {r r' : Except ε α} {s t : σ} :
    @Eq (Id (Except ε α × σ)) (r, s) (r', t) ↔ r = r' ∧ s = t :=
  Iff.of_eq (Prod.mk.injEq ..)

section Bind

variable {x : ExceptT ε (StateM σ) α} {f : α → ExceptT ε (StateM σ) β} {s t : σ}

theorem run_bind_ok {a : α} (h : x.run s = (.ok a, t)) : (x >>= f).run s = (f a).run t := by
  show ExceptT.bindCont f (x.run s).1 (x.run s).2 = _
  rw [h]
  rfl

theorem run_bind_error {e : ε} (h : x.run s = (.error e, t)) :
    (x >>= f).run s = (.error e, t) := by
  show ExceptT.bindCont f (x.run s).1 (x.run s).2 = _
  rw [h]
  rfl

theorem ok_of_run_bind {b : β} {u : σ} (h : (x >>= f).run s = (.ok b, u)) :
    ∃ a t, x.run s = (.ok a, t) ∧ (f a).run t = (.ok b, u) := by
  rcases hx : x.run s with ⟨e | a, t⟩
  · rw [run_bind_error hx] at h
    cases h
  · rw [run_bind_ok hx] at h
    exact ⟨a, t, rfl, h⟩

theorem error_of_run_bind {e : ε} {u : σ} (h : (x >>= f).run s = (.error e, u)) :
    x.run s = (.error e, u) ∨ ∃ a t, x.run s = (.ok a, t) ∧ (f a).run t = (.error e, u) := by
  rcases hx : x.run s with ⟨e' | a, t⟩
  · rw [run_bind_error hx] at h
    cases h
    exact .inl rfl
  · rw [run_bind_ok hx] at h
    exact .inr ⟨a, t, rfl, h⟩

end Bind

section Errors

/-- Whatever a run of `d` starts from, the errors it fails with are of `P`. -/
def RaisesOnly (P : ε → Prop) (d : ExceptT ε (StateM σ) α) : Prop :=
  ∀ s e t, d.run s = (.error e, t) → P e

variable {P : ε → Prop} {d : ExceptT ε (StateM σ) α} {f : α → ExceptT ε (StateM σ) β}

theorem raisesOnly_pure (a : α) : RaisesOnly P (pure a : ExceptT ε (StateM σ) α) := by
  intro s e t h
  simp at h

theorem raisesOnly_throw {e : ε} (h : P e) : RaisesOnly P (throw e : ExceptT ε (StateM σ) α) := by
  intro s e' t he
  obtain ⟨rfl, -⟩ : e = e' ∧ s = t := by simpa using he
  exact h

theorem raisesOnly_get : RaisesOnly P (get : ExceptT ε (StateM σ) σ) := by
  intro s e t h
  simp at h

theorem raisesOnly_modify (g : σ → σ) : RaisesOnly P (modify g : ExceptT ε (StateM σ) PUnit) := by
  intro s e t h
  simp at h

theorem raisesOnly_set (s : σ) : RaisesOnly P (set s : ExceptT ε (StateM σ) PUnit) := by
  intro s' e t h
  cases h

theorem RaisesOnly.bind (hd : RaisesOnly P d) (hf : ∀ a, RaisesOnly P (f a)) :
    RaisesOnly P (d >>= f) := by
  intro s e u h
  rcases error_of_run_bind h with hrun | ⟨a, t, -, hrun⟩
  · exact hd s e u hrun
  · exact hf a t e u hrun

theorem RaisesOnly.map (hd : RaisesOnly P d) (g : α → β) : RaisesOnly P (do return g (← d)) :=
  hd.bind fun a => raisesOnly_pure (g a)

theorem RaisesOnly.check {c : Prop} [Decidable c] {e : ε} (he : P e) (hd : RaisesOnly P d) :
    RaisesOnly P (do
      if c then
        throw e
      d) := by
  by_cases hc : c
  · simp only [hc, if_true]
    exact (raisesOnly_throw he).bind fun _ => hd
  · simp only [hc, if_false]
    exact hd

theorem raisesOnly_mapM {as : List α} (h : ∀ a ∈ as, RaisesOnly P (f a)) : RaisesOnly P (as.mapM f) := by
  induction as with
  | nil => exact raisesOnly_pure []
  | cons a rest ih =>
    rw [List.mapM_cons]
    apply (h a List.mem_cons_self).bind
    intro b
    exact (ih fun a ha => h a (List.mem_cons_of_mem _ ha)).map (b :: ·)

end Errors

theorem exists_of_isOk {e : Except ε α} (h : e.isOk = true) : ∃ a, e = .ok a := by
  cases e with
  | error e => cases h
  | ok a => exact ⟨a, rfl⟩

section Plain

theorem ok_of_bind {x : Except ε α} {f : α → Except ε β} {b : β} (h : x >>= f = .ok b) :
    ∃ a, x = .ok a ∧ f a = .ok b := by
  cases x with
  | error e => cases h
  | ok a => exact ⟨a, rfl, h⟩

theorem error_of_bind {x : Except ε α} {f : α → Except ε β} {e : ε} (h : x >>= f = .error e) :
    x = .error e ∨ ∃ a, x = .ok a ∧ f a = .error e := by
  cases x with
  | error e' =>
    cases h
    exact .inl rfl
  | ok a => exact .inr ⟨a, rfl, h⟩

theorem error_of_mapError {ε' : Type} {x : Except ε α} {f : ε → ε'} {e : ε'} (h : x.mapError f = .error e) :
    ∃ e', x = .error e' ∧ f e' = e := by
  cases x with
  | error e' => exact ⟨e', rfl, Except.error.inj h⟩
  | ok a => cases h

theorem exists_of_mem_mapM {f : α → Except ε β} {as : List α} {bs : List β} (h : as.mapM f = .ok bs)
    {b : β} (hb : b ∈ bs) : ∃ a ∈ as, f a = .ok b := by
  induction as generalizing bs with
  | nil =>
    cases h
    cases hb
  | cons a rest ih =>
    rw [List.mapM_cons] at h
    obtain ⟨first, hfirst, h⟩ := ok_of_bind h
    obtain ⟨others, hothers, h⟩ := ok_of_bind h
    cases h
    rcases List.mem_cons.mp hb with rfl | hb
    · exact ⟨a, List.mem_cons_self, hfirst⟩
    · obtain ⟨found, hfound, hf⟩ := ih hothers hb
      exact ⟨found, List.mem_cons_of_mem _ hfound, hf⟩

end Plain

end WireSchema.Step
