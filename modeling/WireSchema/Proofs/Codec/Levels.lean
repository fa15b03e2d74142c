import WireSchema.Proofs.Codec.Alias
import WireSchema.Proofs.Codec.LeastSize

/-!
# How many levels a reading takes

`Needs d n bytes a`: on these bytes, whatever follows them, `d` gives `a` and
stops behind them if it is given at least `n` levels, and with fewer it reports
the limit and nothing else. The number for a sequence is the larger of the two,
and one step down costs one level.
-/

namespace WireSchema

set_option autoImplicit false

open Schema

namespace Decoder

structure Needs {α : Type} (d : Nat → Decoder α) (n : Nat) (bytes : List UInt8) (a : α) : Prop where
  reads : ∀ levels i rest, n ≤ levels →
    (d levels).run ⟨i, bytes ++ rest⟩ = (.ok a, ⟨i + bytes.length, rest⟩)
  refuses : ∀ levels i rest, levels < n →
    ∃ r, (d levels).run ⟨i, bytes ++ rest⟩ = (.error (.depthLimit maxDepth), r)

variable {α β : Type} {d e : Nat → Decoder α} {n m : Nat} {bytes x y : List UInt8} {a : α} {b : β}

theorem needs_zero
    (h : ∀ levels i rest, (d levels).run ⟨i, bytes ++ rest⟩ = (.ok a, ⟨i + bytes.length, rest⟩)) :
    Needs d 0 bytes a :=
  ⟨fun levels i rest _ => h levels i rest, fun _ _ _ hlt => absurd hlt (Nat.not_lt_zero _)⟩

theorem needs_pure (a : α) : Needs (fun _ => pure a) 0 [] a :=
  needs_zero fun _ _ _ => rfl

theorem Needs.bind {f : Nat → α → Decoder β} (hd : Needs d n x a)
    (hf : Needs (fun levels => f levels a) m y b) :
    Needs (fun levels => d levels >>= f levels) (max n m) (x ++ y) b := by
  constructor
  · intro levels i rest hle
    rw [List.append_assoc, Step.run_bind_ok (hd.reads levels i (y ++ rest) (by omega)),
      hf.reads levels _ rest (by omega), List.length_append, Nat.add_assoc]
  · intro levels i rest hlt
    rw [List.append_assoc]
    by_cases hn : levels < n
    · obtain ⟨r, hr⟩ := hd.refuses levels i (y ++ rest) hn
      exact ⟨r, Step.run_bind_error hr⟩
    · rw [Step.run_bind_ok (hd.reads levels i (y ++ rest) (by omega))]
      exact hf.refuses levels _ rest (by omega)

theorem Needs.map {g : α → β} (hd : Needs d n bytes a) :
    Needs (fun levels => do return g (← d levels)) n bytes (g a) := by
  have h := hd.bind (f := fun _ a => pure (g a)) (needs_pure (g a))
  rwa [Nat.max_zero, List.append_nil] at h

/-- A first part that takes no notice of levels, but may look ahead at the bytes of the second. -/
theorem Needs.after {c : α} {d : Decoder α} {f : Nat → α → Decoder β}
    (hd : ∀ i rest, d.run ⟨i, x ++ (bytes ++ rest)⟩ = (.ok c, ⟨i + x.length, bytes ++ rest⟩))
    (hf : Needs (fun levels => f levels c) n bytes b) :
    Needs (fun levels => d >>= f levels) n (x ++ bytes) b := by
  constructor
  · intro levels i rest hle
    rw [List.append_assoc, Step.run_bind_ok (hd i rest), hf.reads levels _ rest hle,
      List.length_append, Nat.add_assoc]
  · intro levels i rest hlt
    rw [List.append_assoc, Step.run_bind_ok (hd i rest)]
    exact hf.refuses levels _ rest hlt

theorem Needs.enter (hzero : d 0 = throw (.depthLimit maxDepth)) (hsucc : ∀ levels, d (levels + 1) = e levels)
    (he : Needs e n bytes a) : Needs d (n + 1) bytes a := by
  constructor
  · intro levels i rest hle
    cases levels with
    | zero => omega
    | succ levels =>
      rw [hsucc]
      exact he.reads levels i rest (by omega)
  · intro levels i rest hlt
    cases levels with
    | zero =>
      rw [hzero]
      exact ⟨_, Step.run_throw _ _⟩
    | succ levels =>
      rw [hsucc]
      exact he.refuses levels i rest (by omega)

theorem Needs.of_yields {P : List UInt8 → α → Prop} (hd : Needs d n bytes a)
    (h : (d n).Yields P) : P bytes a := by
  obtain ⟨front, hfront, -, hP⟩ := h _ _ _ (hd.reads n 0 [] (Nat.le_refl n))
  have hbytes : bytes = front := by simpa using hfront
  rwa [hbytes]

end Decoder

open Decoder

namespace LayoutSet

variable {set : LayoutSet} {codec : Codec} {n : Nat} {bytes : List UInt8} {w : Value}

theorem needs_target (h : Needs (set.readAt · (set.target codec).codec) n bytes w) :
    Needs (set.readAt · codec) (set.aliasSteps codec + n) bytes w := by
  constructor
  · intro levels i rest hle
    obtain ⟨k, rfl⟩ := Nat.exists_eq_add_of_le' (show set.aliasSteps codec ≤ levels by omega)
    rw [readAt_target]
    exact h.reads k i rest (by omega)
  · intro levels i rest hlt
    by_cases hle : levels ≤ set.aliasSteps codec
    · rw [readAt_le_aliasSteps hle]
      exact ⟨_, Step.run_throw _ _⟩
    · obtain ⟨k, rfl⟩ := Nat.exists_eq_add_of_le' (show set.aliasSteps codec ≤ levels by omega)
      rw [readAt_target]
      exact h.refuses k i rest (by omega)

/-- What is read under the plain codec or the layout that a codec comes to. -/
theorem needs_of_plain {plain : Codec} {body : Nat → Decoder Value} (ht : set.target codec = .plain plain)
    (hbody : ∀ levels, set.readAt (levels + 1) plain = body levels) (h : Needs body n bytes w) :
    Needs (set.readAt · codec) (set.aliasSteps codec + n + 1) bytes w := by
  rw [Nat.add_assoc]
  apply needs_target
  rw [ht]
  exact h.enter rfl hbody

theorem needs_of_prim {p : Primitive} (ht : set.target codec = .plain (.prim p))
    (h : ∀ i rest, p.read.run ⟨i, bytes ++ rest⟩ = (.ok w, ⟨i + bytes.length, rest⟩)) :
    Needs (set.readAt · codec) (set.aliasSteps codec + 1) bytes w :=
  needs_of_plain ht (fun _ => rfl : ∀ _, _ = p.read) (needs_zero fun _ => h)

theorem needs_of_layout {key : String} {layout : Layout} (ht : set.target codec = .layout key layout)
    (h : Needs (fun levels => layout.read (set.readAt levels) key) n bytes w) :
    Needs (set.readAt · codec) (set.aliasSteps codec + n + 1) bytes w := by
  rw [Nat.add_assoc]
  apply needs_target
  rw [ht]
  refine h.enter rfl fun levels => ?_
  rw [Target.codec, readAt, get?_of_target ht]

end LayoutSet

end WireSchema
