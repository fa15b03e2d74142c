import WireSchema.Proofs.Codec.Output

/-!
# A buffer is only added to

An encoder has one output: the bytes it gives by itself, or the error it fails
with. Into a buffer that holds something already it writes that output behind
what is there. A failure may leave a part of the bytes in the buffer; how much
of them is not said here, only that it does not depend on the buffer. From this
follows what several encoders write that use one buffer in turn.
-/

namespace WireSchema

set_option autoImplicit false

open Schema

namespace Encoder

/-- Behind whatever a buffer holds the encoder writes these bytes, or it writes something and fails with this error. -/
def Outputs (e : Encoder) : Except CodecError (List UInt8) → Prop
  | .ok bytes => ∀ buffer, e.run buffer = (.ok (), buffer ++ bytes.toArray)
  | .error error => ∃ written : List UInt8, ∀ buffer, e.run buffer = (.error error, buffer ++ written.toArray)

variable {a b : Encoder} {x y : Except CodecError (List UInt8)}

theorem outputs_of_does {e : Encoder} {written : List UInt8} {result : Except CodecError Unit}
    (h : e.Does written result) : e.Outputs (result.map fun _ => written) := by
  cases result with
  | error error => exact ⟨written, h⟩
  | ok _ => exact h

theorem Outputs.bytes_eq (h : a.Outputs x) : a.bytes = x := by
  unfold Encoder.bytes
  cases x with
  | error error =>
    obtain ⟨written, hwritten⟩ := h
    rw [hwritten #[]]
  | ok bytes =>
    rw [h #[]]
    simp

/-- What only adds to buffers outputs what it gives by itself. -/
theorem Appends.outputs (h : a.Appends) : a.Outputs a.bytes := by
  obtain ⟨written, result, hdoes⟩ := h
  have houtputs := outputs_of_does hdoes
  rwa [houtputs.bytes_eq]

theorem outputs_pure : Outputs (pure ()) (.ok []) :=
  outputs_of_does writes_pure

theorem outputs_emit (bytes : List UInt8) : (emit bytes).Outputs (.ok bytes) :=
  outputs_of_does (writes_emit bytes)

theorem Outputs.bind (ha : a.Outputs x) (hb : b.Outputs y) :
    Outputs (do a; b) (do return (← x) ++ (← y)) := by
  cases x with
  | error error =>
    obtain ⟨written, hwritten⟩ := ha
    exact outputs_of_does (Does.bind_error hwritten)
  | ok front =>
    cases y with
    | error error =>
      obtain ⟨written, hwritten⟩ := hb
      exact outputs_of_does (Writes.bind ha hwritten)
    | ok back => exact outputs_of_does (Writes.bind ha hb)

/-- The output of encoders that use one buffer in turn, up to the first one that fails. -/
theorem outputs_forM {α : Type} {write : α → Encoder} {output : α → Except CodecError (List UInt8)}
    (h : ∀ item, (write item).Outputs (output item)) (items : List α) :
    Outputs (items.forM write) (List.flatten <$> items.mapM output) := by
  induction items with
  | nil => exact outputs_pure
  | cons item rest ih =>
    have hjoin : List.flatten <$> (item :: rest).mapM output
        = (do return (← output item) ++ (← List.flatten <$> rest.mapM output)) := by
      rw [List.mapM_cons]
      cases output item with
      | error error => rfl
      | ok front => cases rest.mapM output <;> rfl
    rw [hjoin]
    exact (h item).bind ih

end Encoder

open Encoder

namespace LayoutSet

variable (set : LayoutSet)

theorem outputs_encodeInto (codec : Codec) (value : Value) :
    (set.encodeInto codec value).Outputs (set.encode codec value) :=
  Appends.outputs (appends_write value codec)

/-- Writing a value adds to the buffer what the value is encoded as, so a discriminator stays in front of it, and
values written in turn stand one behind the other. -/
theorem encodeInto_appends :
    (∀ codec value, (set.encodeInto codec value).Outputs (set.encode codec value))
      ∧ (∀ discriminator codec value,
        set.encodePrefixed discriminator codec value = (discriminator.toList ++ ·) <$> set.encode codec value)
      ∧ ∀ values : List (Codec × Value),
        Outputs (values.forM fun (codec, value) => set.encodeInto codec value)
          (List.flatten <$> values.mapM fun (codec, value) => set.encode codec value) := by
  refine ⟨set.outputs_encodeInto, fun discriminator codec value => ?_, fun values => ?_⟩
  · have hprefixed := (outputs_emit discriminator.toList).bind (set.outputs_encodeInto codec value)
    rw [encodePrefixed, hprefixed.bytes_eq]
    rfl
  · exact outputs_forM (fun (codec, value) => set.outputs_encodeInto codec value) values

example : (empty.encodeInto (.vec (.prim .bool)) (.vec [.bool true, .string "x"])).run #[9]
    = (.error (.typeMismatch "bool" "string"), #[9, 2, 0, 0, 0, 1]) := by rfl

end LayoutSet

end WireSchema
