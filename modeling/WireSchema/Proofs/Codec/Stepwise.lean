import WireSchema.Proofs.Codec.LeastSize

/-!
# Reading one step at a time

The stepwise decoder reads a count and then what is counted, and never asks how
much data is left. The decoder proper looks ahead: it may give up before the
elements, but only for want of bytes, and only where the stepwise decoder fails
as well. That the two fail with the same error is not claimed.
-/

namespace WireSchema

set_option autoImplicit false

open Schema Decoder

/-- A text behind the count of its bytes, which is compared to nothing. -/
def Reader.stringStepwise : Decoder String := do
  let data ← Reader.bytes (← Reader.number 4)
  match Text.ofUtf8? data with
  | some text => return text
  | none => throw .invalidUtf8

def Schema.Primitive.readStepwise : Primitive → Decoder Value
  | .bool => return .bool (← Reader.bool)
  | .scalar s => return .ofBytes s (← Reader.bytes s.size)
  | .bytes => return .bytes (← Reader.bytes (← Reader.number 4))
  | .string => return .string (← Reader.stringStepwise)

namespace LayoutSet

/-- Read a value when `levels` levels of nesting are left, with no look at the rest of the data. -/
def readStepwise (set : LayoutSet) : Nat → Codec → Decoder Value
  | 0, _ => throw (.depthLimit maxDepth)
  | levels + 1, codec =>
    match codec with
    | .prim p => p.readStepwise
    | .option tag inner => do
      match ← Reader.number tag.size with
      | 0 => return .option tag none
      | 1 => return .option tag (some (← set.readStepwise levels inner))
      | n => throw (.invalidOptionTag n)
    | .vec inner => do
      let count ← Reader.number 4
      if let some error := set.refuseZeroSized inner count then throw error
      return .vec (← (set.readStepwise levels inner).times count)
    | .array inner length => do
      if let some error := set.refuseZeroSized inner length then throw error
      return .array (← (set.readStepwise levels inner).times length)
    | .defined key =>
      match set.get? key with
      | some layout => layout.read (set.readStepwise levels) key
      | none => throw (.missingLayout key)

def decodeStepwise (set : LayoutSet) (codec : Codec) : Decoder Value :=
  set.readStepwise (maxDepth + 1) codec

end LayoutSet

namespace Decoder

variable {α β : Type} {d e : Decoder α} {f g : α → Decoder β} {r t : Reader} {a : α}

/-- The data ends too early for `d`. -/
def RunsOut (d : Decoder α) (r : Reader) : Prop :=
  ∃ needed left s, d.run r = (.error (.unexpectedEnd needed left), s)

theorem RunsOut.bind (h : d.RunsOut r) : (d >>= f).RunsOut r := by
  obtain ⟨needed, left, s, h⟩ := h
  exact ⟨needed, left, s, Step.run_bind_error h⟩

theorem RunsOut.after (hd : d.run r = (.ok a, t)) (h : (f a).RunsOut t) : (d >>= f).RunsOut r := by
  obtain ⟨needed, left, s, h⟩ := h
  exact ⟨needed, left, s, (Step.run_bind_ok hd).trans h⟩

theorem RunsOut.not_ok (h : d.RunsOut r) : d.run r ≠ (.ok a, t) := by
  obtain ⟨needed, left, s, h⟩ := h
  rw [h]
  exact fun heq => nomatch heq

/-- `d` does what `e` does, unless it gives up for want of bytes where `e` would not succeed. -/
structure LooksAhead (d e : Decoder α) : Prop where
  follows : ∀ r, d.run r = e.run r ∨ d.RunsOut r
  succeeds : ∀ r a s, e.run r = (.ok a, s) → d.run r = (.ok a, s)

theorem LooksAhead.refl (d : Decoder α) : d.LooksAhead d :=
  ⟨fun _ => .inl rfl, fun _ _ _ => id⟩

theorem LooksAhead.ok_iff (h : d.LooksAhead e) {s : Reader} : d.run r = (.ok a, s) ↔ e.run r = (.ok a, s) := by
  constructor
  · intro hd
    rcases h.follows r with heq | hout
    · rwa [← heq]
    · exact absurd hd hout.not_ok
  · exact h.succeeds r a s

theorem LooksAhead.yields (h : d.LooksAhead e) {P : List UInt8 → α → Prop} (hd : d.Yields P) : e.Yields P :=
  fun r a s he => hd r a s (h.succeeds r a s he)

theorem LooksAhead.bind (h : d.LooksAhead e) (hf : ∀ a, (f a).LooksAhead (g a)) :
    (d >>= f).LooksAhead (e >>= g) := by
  constructor
  · intro r
    rcases h.follows r with heq | hout
    · rcases hrun : e.run r with ⟨error | a, t⟩
      · rw [hrun] at heq
        exact .inl ((Step.run_bind_error heq).trans (Step.run_bind_error hrun).symm)
      · rw [hrun] at heq
        rw [Step.run_bind_ok hrun]
        rcases (hf a).follows t with hfg | hout
        · exact .inl ((Step.run_bind_ok heq).trans hfg)
        · exact .inr (.after heq hout)
    · exact .inr hout.bind
  · intro r b s hrun
    obtain ⟨a, t, he, hg⟩ := Step.ok_of_run_bind hrun
    rw [Step.run_bind_ok (h.succeeds r a t he)]
    exact (hf a).succeeds t b s hg

theorem LooksAhead.map (h : d.LooksAhead e) (k : α → β) :
    LooksAhead (do return k (← d)) (do return k (← e)) :=
  h.bind fun a => .refl (pure (k a))

theorem LooksAhead.times (h : d.LooksAhead e) (count : Nat) : (d.times count).LooksAhead (e.times count) := by
  induction count with
  | zero => exact .refl _
  | succ count ih => exact h.bind fun item => ih.map (item :: ·)

theorem runsOut_ensure (count least : Nat) (r : Reader) :
    (Reader.ensure count least).run r = (.ok (), r) ∨ (Reader.ensure count least).RunsOut r := by
  by_cases h : r.remaining < saturated (count * least)
  · refine .inr ⟨saturated (count * least), r.remaining, r, ?_⟩
    rw [Reader.run_ensure, if_pos h]
  · refine .inl ?_
    rw [Reader.run_ensure, if_neg h]

/-- A check of the rest is no obstacle to a decoder that takes as many bytes as the check asks for. -/
theorem LooksAhead.ensure (h : d.LooksAhead e) {count least : Nat}
    (hleast : e.Yields fun bytes _ => count * least ≤ bytes.length) :
    LooksAhead (do
      Reader.ensure count least
      d) e := by
  constructor
  · intro r
    rcases runsOut_ensure count least r with hok | hout
    · exact (h.follows r).imp (Step.run_bind_ok hok).trans (.after hok)
    · exact .inr hout.bind
  · intro r a s hrun
    obtain ⟨bytes, hrest, -, hbytes⟩ := hleast r a s hrun
    have hcount : count * least ≤ r.rest.length := by
      rw [hrest, List.length_append]
      exact Nat.le_add_right_of_le hbytes
    rw [Step.run_bind_ok (Reader.run_ensure_of_le hcount)]
    exact h.succeeds r a s hrun

/-- The same of a count that is compared to the rest as soon as it is read. -/
theorem LooksAhead.count {least : Nat} {f g : Nat → Decoder β} (h : ∀ n, (f n).LooksAhead (g n))
    (hleast : ∀ n, (g n).Yields fun bytes _ => n * least ≤ bytes.length) :
    LooksAhead (do f (← Reader.count least)) (do g (← Reader.number 4)) := by
  unfold Reader.count
  simp only [bind_assoc, pure_bind]
  exact (LooksAhead.refl _).bind fun n => (h n).ensure (hleast n)

end Decoder

open Decoder

theorem Reader.looksAhead_string : LooksAhead Reader.string Reader.stringStepwise := by
  refine LooksAhead.count (fun n => .refl _) fun n => ?_
  refine yields_bind ((Reader.yields_bytes n).mono ?_)
  rintro front data ⟨hlength, -⟩
  split
  · exact yields_pure (by simp [hlength])
  · exact yields_throw _

theorem Schema.Primitive.looksAhead (p : Primitive) : p.read.LooksAhead p.readStepwise := by
  cases p with
  | bool => exact .refl _
  | scalar s => exact .refl _
  | bytes =>
    refine LooksAhead.count (fun n => .refl _) fun n => ?_
    refine yields_bind ((Reader.yields_bytes n).mono ?_)
    rintro front data ⟨hlength, -⟩
    exact yields_pure (by simp [hlength])
  | string => exact Reader.looksAhead_string.map Value.string

section Parts

variable {read readStepwise : Codec → Decoder Value}

theorem looksAhead_readFields (h : ∀ codec, (read codec).LooksAhead (readStepwise codec))
    (fields : List FieldCodec) : (readFields read fields).LooksAhead (readFields readStepwise fields) := by
  induction fields with
  | nil => exact .refl _
  | cons field rest ih => exact (h field.codec).bind fun value => ih.map ((field.name, value) :: ·)

theorem Layout.looksAhead (h : ∀ codec, (read codec).LooksAhead (readStepwise codec)) (key : String)
    (layout : Layout) : (layout.read read key).LooksAhead (layout.read readStepwise key) := by
  cases layout with
  | struct fields => exact (looksAhead_readFields h fields).map Value.struct
  | simpleEnum names => exact .refl _
  | complexEnum variants =>
    refine (LooksAhead.refl _).bind fun index => ?_
    rcases variants[index]? with _ | ⟨name, _ | fields⟩
    · exact .refl _
    · exact .refl _
    · exact (looksAhead_readFields h fields).map fun values => Value.enum name (some values)
  | aliasOf codec => exact h codec

end Parts

namespace LayoutSet

/-- Elements that are there take at least the bytes that the early check asks for. -/
theorem looksAhead_readAt (set : LayoutSet) (levels : Nat) (codec : Codec) :
    (set.readAt levels codec).LooksAhead (set.readStepwise levels codec) := by
  induction levels generalizing codec with
  | zero => exact .refl _
  | succ levels ih =>
    have hleast : ∀ inner count (g : List Value → Value),
        Yields (do return g (← (set.readStepwise levels inner).times count)) fun bytes _ =>
          count * set.minSize inner ≤ bytes.length := by
      intro inner count g
      refine yields_bind ((yields_times ((ih inner).yields (set.yields_minSize levels inner)) count).mono ?_)
      rintro bytes items ⟨-, hbytes⟩
      refine yields_pure ?_
      rwa [List.append_nil, Nat.mul_comm]
    cases codec with
    | prim p => exact p.looksAhead
    | option tag inner =>
      refine (LooksAhead.refl _).bind fun n => ?_
      match n with
      | 0 => exact .refl _
      | 1 => exact (ih inner).map fun value => Value.option tag (some value)
      | n + 2 => exact .refl _
    | vec inner =>
      have hitems := fun count => ((ih inner).times count).map Value.vec
      refine LooksAhead.count (fun count => ?_) fun count => ?_
      · cases set.refuseZeroSized inner count with
        | some error => exact (LooksAhead.refl _).bind fun _ => hitems count
        | none => exact hitems count
      · cases set.refuseZeroSized inner count with
        | some error => exact yields_bind (yields_throw _)
        | none => exact hleast inner count Value.vec
    | array inner length =>
      have hitems := (((ih inner).times length).map Value.array).ensure (hleast inner length Value.array)
      rw [readAt, readStepwise]
      cases set.refuseZeroSized inner length with
      | some error => exact (LooksAhead.refl _).bind fun _ => hitems
      | none => exact hitems
    | defined key =>
      rw [readAt, readStepwise]
      cases set.get? key with
      | none => exact .refl _
      | some layout => exact layout.looksAhead ih key

end LayoutSet

end WireSchema
