import WireSchema.Proofs.Schema.Places
import WireSchema.Proofs.Schema.Validation

/-!
# The calls of a visitor

A visitor is called with one place after the other, and each of its answers may
depend on all the calls before. A walk makes the calls of one that nothing
stops, up to the first call after which the visitor does not go on. What a
visitor keeps in its state is its own affair.
-/

namespace WireSchema.Schema

set_option autoImplicit false

/-- A place that was shown to a visitor, and whether the visitor went on from there. -/
structure Call where
  place : Place
  goesOn : Bool

variable {σ τ : Type}

/-- The visitor with a record of its calls beside its own state. -/
def Visitor.recorded (visit : Visitor σ) : Visitor (σ × List Call) := fun path slot (s, calls) =>
  let (goesOn, s') := visit path slot s
  (goesOn, s', calls ++ [⟨(path, slot), goesOn⟩])

/-- The calls of a walk in their order. -/
def Document.calls (doc : Document) (visit : Visitor σ) (s : σ) : List Call :=
  (doc.walk visit.recorded (s, [])).2.2

/-- A visitor that always goes on. -/
def Visitor.Tireless (visit : Visitor σ) : Prop :=
  ∀ path slot s, (visit path slot s).1 = true

/-- The number of the first call that stops the walk, or `all` if none does. -/
def callCount (calls : List Call) (all : Nat) : Nat :=
  (calls.findIdx? fun call => !call.goesOn).elim all (· + 1)

/-- The calls with listed places, up to the first after which the visitor does not go on. -/
def callsOn (visit : Visitor σ) (s : σ) : List Place → List Call
  | [] => []
  | (path, slot) :: rest =>
    let (goesOn, s') := visit path slot s
    ⟨(path, slot), goesOn⟩ :: if goesOn then callsOn visit s' rest else []

section Step

variable {first second : StateM σ Bool} {s s' : σ}

theorem thenWalk_of_true (h : first s = (true, s')) : thenWalk first second s = second s' := by
  change (do if ← first then second else return false) s = second s'
  simp only [bind, StateT.bind, h]
  rfl

theorem thenWalk_of_false (h : first s = (false, s')) : thenWalk first second s = (false, s') := by
  change (do if ← first then second else return false) s = (false, s')
  simp only [bind, StateT.bind, h]
  rfl

end Step

section Calls

variable (visit : Visitor σ) (s : σ)

/-- A record is kept without a change to the walk. -/
theorem visitAll_recorded (places : List Place) (calls : List Call) :
    visitAll visit.recorded places (s, calls)
      = ((visitAll visit places s).1, (visitAll visit places s).2, calls ++ callsOn visit s places) := by
  induction places generalizing s calls with
  | nil =>
    rw [callsOn, List.append_nil]
    rfl
  | cons place rest ih =>
    obtain ⟨path, slot⟩ := place
    rcases hcall : visit path slot s with ⟨goesOn, s'⟩
    have hrecorded : visit.recorded path slot (s, calls)
        = (goesOn, s', calls ++ [⟨(path, slot), goesOn⟩]) := by simp [Visitor.recorded, hcall]
    cases goesOn with
    | true =>
      rw [visitAll, visitAll, thenWalk_of_true hrecorded, thenWalk_of_true hcall, ih]
      simp [callsOn, hcall]
    | false =>
      rw [visitAll, visitAll, thenWalk_of_false hrecorded, thenWalk_of_false hcall]
      simp [callsOn, hcall]

theorem visitAll_eq_true_iff (places : List Place) :
    (visitAll visit places s).1 = true ↔ ∀ call ∈ callsOn visit s places, call.goesOn = true := by
  induction places generalizing s with
  | nil => exact iff_of_true rfl nofun
  | cons place rest ih =>
    obtain ⟨path, slot⟩ := place
    rcases hcall : visit path slot s with ⟨goesOn, s'⟩
    cases goesOn with
    | true =>
      rw [visitAll, thenWalk_of_true hcall, ih]
      simp [callsOn, hcall]
    | false =>
      rw [visitAll, thenWalk_of_false hcall]
      simp [callsOn, hcall]

theorem map_place_callsOn (places : List Place) :
    (callsOn visit s places).map Call.place = places.take (callCount (callsOn visit s places) places.length) := by
  induction places generalizing s with
  | nil => simp [callsOn]
  | cons place rest ih =>
    obtain ⟨path, slot⟩ := place
    rcases hcall : visit path slot s with ⟨goesOn, s'⟩
    cases goesOn with
    | true =>
      have hrest := ih s'
      simp only [callCount] at hrest
      simp only [callsOn, hcall, callCount, List.map_cons, if_true, hrest, List.findIdx?_cons]
      cases (callsOn visit s' rest).findIdx? fun call => !call.goesOn <;> simp
    | false => simp [callsOn, hcall, callCount, List.findIdx?_cons]

theorem Visitor.Tireless.goesOn {visit : Visitor σ} (h : visit.Tireless) {s : σ} {places : List Place} {call : Call}
    (hcall : call ∈ callsOn visit s places) : call.goesOn = true := by
  induction places generalizing s with
  | nil => cases hcall
  | cons place rest ih =>
    obtain ⟨path, slot⟩ := place
    have hgo := h path slot s
    rcases hanswer : visit path slot s with ⟨goesOn, s'⟩
    rw [hanswer] at hgo
    subst hgo
    rw [callsOn, hanswer] at hcall
    rcases List.mem_cons.mp hcall with rfl | hrest
    · rfl
    · exact ih hrest

theorem Visitor.Tireless.map_place {visit : Visitor σ} (h : visit.Tireless) (s : σ) (places : List Place) :
    (callsOn visit s places).map Call.place = places := by
  have hnone : (callsOn visit s places).findIdx? (fun call => !call.goesOn) = none :=
    List.findIdx?_eq_none_iff.mpr fun call hcall => by rw [h.goesOn hcall]; rfl
  rw [map_place_callsOn, callCount, hnone]
  exact List.take_length

end Calls

namespace Document

variable (doc : Document)

theorem calls_eq (visit : Visitor σ) (s : σ) : doc.calls visit s = callsOn visit s doc.places := by
  rw [calls, walk_eq, visitAll_recorded, places_eq]
  rfl

theorem walk_recorded (visit : Visitor σ) (s : σ) :
    doc.walk visit.recorded (s, []) = ((doc.walk visit s).1, (doc.walk visit s).2, doc.calls visit s) := by
  rw [calls_eq, walk_eq, walk_eq, visitAll_recorded, places_eq]
  rfl

theorem map_place_calls {visit : Visitor σ} (h : visit.Tireless) (s : σ) :
    (doc.calls visit s).map Call.place = doc.places := by
  rw [calls_eq, h.map_place]

/-- A visitor that stops a walk gets the calls of any that does not, up to the one that it stops at. -/
theorem calls_cut_short (visit : Visitor σ) (s : σ) {tireless : Visitor τ} (h : tireless.Tireless) (t : τ) :
    doc.walk visit.recorded (s, []) = ((doc.walk visit s).1, (doc.walk visit s).2, doc.calls visit s)
      ∧ (doc.calls visit s).map Call.place
        = ((doc.calls tireless t).map Call.place).take
          (callCount (doc.calls visit s) (doc.calls tireless t).length)
      ∧ ((doc.walk visit s).1 = true ↔ ∀ call ∈ doc.calls visit s, call.goesOn = true) := by
  have hlength : (doc.calls tireless t).length = doc.places.length := by
    rw [← List.length_map Call.place, map_place_calls doc h]
  refine ⟨doc.walk_recorded visit s, ?_, ?_⟩
  · rw [map_place_calls doc h, hlength, calls_eq, map_place_callsOn]
  · rw [walk_eq, visitAll_eq_true_iff, calls_eq, places_eq]

/-- The third call comes to the slot of the vector, and behind it are two more. -/
theorem calls_cut_short_third :
    let byte : Ty := .prim (.scalar .u8)
    let doc := ofTypes [.record "Rows" [] [("count", byte), ("rows", .vec (some (.option .byte none))), ("mark", byte)]]
    let third : Visitor Nat := fun _ _ n => (decide (n < 2), n + 1)
    let tireless : Visitor Unit := fun _ _ s => (true, s)
    tireless.Tireless ∧ (doc.calls tireless ()).length = 5 ∧ (doc.calls third 0).length = 3
      ∧ (doc.calls third 0).map Call.place = ((doc.calls tireless ()).map Call.place).take 3
      ∧ (doc.walk third 0).1 = false := by
  intro byte doc third tireless
  have htireless : tireless.Tireless := fun _ _ _ => rfl
  obtain ⟨-, hplaces, hwalk⟩ := doc.calls_cut_short third 0 htireless ()
  refine ⟨htireless, rfl, rfl, hplaces, ?_⟩
  have hstop : ¬ ∀ call ∈ doc.calls third 0, call.goesOn = true := by decide
  exact Bool.eq_false_iff.mpr fun h => hstop (hwalk.mp h)

end Document

end WireSchema.Schema
