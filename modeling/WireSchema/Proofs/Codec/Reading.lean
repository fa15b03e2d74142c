import WireSchema.Codec.Decoder
import WireSchema.Proofs.Step

/-!
# What a decoder reads

`Yields d P`: whenever `d` succeeds it has taken some bytes off the front, and
these bytes and the result satisfy `P`. Nothing is said of failures. The rules
here follow the building blocks of decoders; a rule for a sequence asks for the
rest to be right after whatever the first part may have read.
-/

namespace WireSchema

set_option autoImplicit false

open Schema

namespace Decoder

def Yields {α : Type} (d : Decoder α) (P : List UInt8 → α → Prop) : Prop :=
  ∀ r a s, d.run r = (.ok a, s) →
    ∃ bytes, r.rest = bytes ++ s.rest ∧ s.index = r.index + bytes.length ∧ P bytes a

variable {α β : Type} {P Q : List UInt8 → α → Prop}

theorem Yields.mono {d : Decoder α} (hd : d.Yields P) (h : ∀ bytes a, P bytes a → Q bytes a) :
    d.Yields Q := by
  intro r a s hr
  obtain ⟨bytes, hrest, hindex, ha⟩ := hd r a s hr
  exact ⟨bytes, hrest, hindex, h bytes a ha⟩

theorem yields_pure {a : α} (h : P [] a) : Yields (pure a) P := by
  intro r b s hr
  obtain ⟨rfl, rfl⟩ : a = b ∧ r = s := by simpa using hr
  exact ⟨[], rfl, rfl, h⟩

theorem yields_throw (error : CodecError) : Yields (throw error : Decoder α) P := by
  intro r b s hr
  simp at hr

theorem yields_bind {d : Decoder α} {f : α → Decoder β} {P : List UInt8 → β → Prop}
    (h : d.Yields fun x a => (f a).Yields fun y b => P (x ++ y) b) : Yields (d >>= f) P := by
  intro r b s hr
  obtain ⟨a, t, hd, hf⟩ := Step.ok_of_run_bind hr
  obtain ⟨x, hx, hxi, ha⟩ := h r a t hd
  obtain ⟨y, hy, hyi, hb⟩ := ha t b s hf
  refine ⟨x ++ y, ?_, ?_, hb⟩
  · rw [hx, hy, List.append_assoc]
  · rw [hyi, hxi, List.length_append, Nat.add_assoc]

end Decoder

theorem leBytes_one (n : Nat) : Bytes.leBytes 1 n = [UInt8.ofNat n] := by
  have h : UInt8.ofNat (n % 256) = UInt8.ofNat n := by
    apply UInt8.toNat_inj.mp
    simp
  simp [Bytes.leBytes, h]

namespace Reader

open Decoder

theorem run_bytes (count : Nat) (r : Reader) :
    (bytes count).run r
      = if count ≤ r.rest.length
        then (.ok (r.rest.take count), ⟨r.index + count, r.rest.drop count⟩)
        else (.error (.unexpectedEnd count r.remaining), r) := by
  simp only [bytes, Step.run_get_bind, split?_eq]
  by_cases h : count ≤ r.rest.length
  · rw [if_pos h, if_pos h]
    rfl
  · rw [if_neg h, if_neg h]
    rfl

theorem run_bytes_append {front rest : List UInt8} {count : Nat} (h : front.length = count)
    (i : Nat) : (bytes count).run ⟨i, front ++ rest⟩ = (.ok front, ⟨i + count, rest⟩) := by
  subst h
  rw [run_bytes, if_pos (by simp)]
  simp

theorem yields_bytes (count : Nat) :
    Yields (bytes count) fun front a => front.length = count ∧ a = front := by
  intro r a s hr
  rw [run_bytes] at hr
  split at hr
  · next h =>
    cases hr
    exact ⟨r.rest.take count, (List.take_append_drop count r.rest).symm, by simp [h], by simp [h], rfl⟩
  · cases hr

theorem run_number_append {size n : Nat} (h : n < Nat.pow 256 size) (i : Nat) (rest : List UInt8) :
    (number size).run ⟨i, Bytes.leBytes size n ++ rest⟩ = (.ok n, ⟨i + size, rest⟩) := by
  unfold number
  rw [Step.run_bind_ok (run_bytes_append (Bytes.length_leBytes size n) i)]
  simpa using Nat.mod_eq_of_lt h

theorem yields_number (size : Nat) :
    Yields (number size) fun front n => front = Bytes.leBytes size n ∧ n < Nat.pow 256 size := by
  refine yields_bind ((yields_bytes size).mono ?_)
  rintro front _ ⟨hlen, rfl⟩
  refine yields_pure ?_
  rw [List.append_nil, ← hlen, Bytes.leBytes_leNat]
  exact ⟨rfl, Bytes.leNat_lt _⟩

theorem yields_bool :
    Yields bool fun front b => front = [if b then 1 else 0] := by
  refine yields_bind ((yields_number 1).mono ?_)
  rintro front n ⟨rfl, -⟩
  split
  · exact yields_pure rfl
  · exact yields_pure rfl
  · exact yields_throw _

theorem run_ensure (count least : Nat) (r : Reader) :
    (ensure count least).run r
      = (if r.remaining < saturated (count * least)
        then .error (.unexpectedEnd (saturated (count * least)) r.remaining) else .ok (), r) := by
  simp only [ensure, Step.run_get_bind]
  split <;> rfl

theorem run_ensure_of_le {count least : Nat} {r : Reader} (h : count * least ≤ r.rest.length) :
    (ensure count least).run r = (.ok (), r) := by
  have hs : ¬ r.remaining < saturated (count * least) := by
    have : saturated (count * least) ≤ count * least := Nat.min_le_left _ _
    unfold remaining
    omega
  rw [run_ensure, if_neg hs]

theorem yields_ensure (count least : Nat) : Yields (ensure count least) fun front _ => front = [] := by
  intro r a s hr
  obtain ⟨-, rfl⟩ := Step.outcome_inj.mp ((run_ensure count least r).symm.trans hr)
  exact ⟨[], rfl, rfl, rfl⟩

theorem run_count_append {n least : Nat} {rest : List UInt8} (hn : n < Nat.pow 2 32)
    (hrest : n * least ≤ rest.length) (i : Nat) :
    (count least).run ⟨i, Bytes.leBytes 4 n ++ rest⟩ = (.ok n, ⟨i + 4, rest⟩) := by
  unfold count
  rw [Step.run_bind_ok (run_number_append hn i rest)]
  exact Step.run_bind_ok (run_ensure_of_le hrest)

theorem yields_count (least : Nat) :
    Yields (count least) fun front n => front = Bytes.leBytes 4 n ∧ n < Nat.pow 2 32 := by
  refine yields_bind ((yields_number 4).mono ?_)
  rintro front n ⟨rfl, hn⟩
  refine yields_bind ((yields_ensure n least).mono ?_)
  rintro _ _ rfl
  exact yields_pure ⟨by simp, hn⟩

theorem run_string_append {text : String} (h : (Text.utf8 text).length < Nat.pow 2 32) (i : Nat)
    (rest : List UInt8) :
    string.run ⟨i, Bytes.leBytes 4 (Text.utf8 text).length ++ (Text.utf8 text ++ rest)⟩
      = (.ok text, ⟨i + 4 + (Text.utf8 text).length, rest⟩) := by
  unfold string
  rw [Step.run_bind_ok (run_count_append h (by simp) i), Step.run_bind_ok (run_bytes_append rfl _),
    Text.ofUtf8?_utf8]
  rfl

theorem yields_string :
    Yields string fun front text =>
      front = Bytes.leBytes 4 (Text.utf8 text).length ++ Text.utf8 text
        ∧ (Text.utf8 text).length < Nat.pow 2 32 := by
  refine yields_bind ((yields_count 1).mono ?_)
  rintro front n ⟨rfl, hn⟩
  refine yields_bind ((yields_bytes n).mono ?_)
  rintro data _ ⟨rfl, rfl⟩
  split
  · next text htext =>
    rw [← Text.utf8_of_ofUtf8? htext] at hn ⊢
    exact yields_pure ⟨by simp, hn⟩
  · exact yields_throw _

theorem run_discriminator {data : List UInt8} {d : Discriminator}
    (h : Discriminator.ofBytes? (data.take 8) = some d) (expected : Discriminator) (i : Nat) :
    (discriminator expected).run ⟨i, data⟩
      = (if d = expected then .ok () else .error (.discriminatorMismatch expected d), ⟨i + 8, data.drop 8⟩) := by
  have hlength : (data.take 8).length = 8 := by
    rw [← Discriminator.toList_of_ofBytes? h]
    exact d.size_toArray
  have hrun : (bytes 8).run ⟨i, data.take 8 ++ data.drop 8⟩ = _ := run_bytes_append hlength i
  rw [List.take_append_drop] at hrun
  unfold discriminator
  rw [Step.run_bind_ok hrun]
  simp only [h]
  split <;> rfl

theorem take_discriminator (d : Discriminator) (rest : List UInt8) :
    Discriminator.ofBytes? ((d.toList ++ rest).take 8) = some d := by
  have hlength : d.toList.length = 8 := d.size_toArray
  rw [List.take_left' hlength, Discriminator.ofBytes?_toList]

theorem run_discriminator_append (d : Discriminator) (i : Nat) (rest : List UInt8) :
    (discriminator d).run ⟨i, d.toList ++ rest⟩ = (.ok (), ⟨i + 8, rest⟩) := by
  have hlength : d.toList.length = 8 := d.size_toArray
  rw [run_discriminator (take_discriminator d rest) d i, if_pos rfl, List.drop_left' hlength]

theorem run_finished (r : Reader) :
    finished.run r = (if r.isEmpty then .ok () else .error (.trailingBytes r.remaining), r) := by
  simp only [finished, Step.run_get_bind]
  cases r.isEmpty <;> rfl

end Reader

/-- A decoder that must take all of the data. -/
theorem Decoder.runOn_finished {α : Type} (d : Decoder α) (data : List UInt8) :
    Prod.fst <$> Decoder.runOn (do
      let value ← d
      Reader.finished
      return value) data
      = match d.run (Reader.ofBytes data) with
        | (.ok value, r) => if r.isEmpty then .ok value else .error (.trailingBytes r.remaining)
        | (.error error, _) => .error error := by
  unfold Decoder.runOn
  rcases hrun : d.run (Reader.ofBytes data) with ⟨error | value, r⟩
  · rw [Step.run_bind_error hrun]
    rfl
  · have hfinished := Reader.run_finished r
    rw [Step.run_bind_ok hrun]
    dsimp only
    split at hfinished
    · next h =>
      rw [Step.run_bind_ok hfinished, if_pos h]
      rfl
    · next h =>
      rw [Step.run_bind_error hfinished, if_neg h]
      rfl

theorem LayoutSet.decode_eq (set : LayoutSet) (codec : Codec) (data : List UInt8) :
    set.decode codec data
      = match (set.decodeFrom codec).run (Reader.ofBytes data) with
        | (.ok value, r) => if r.isEmpty then .ok value else .error (.trailingBytes r.remaining)
        | (.error error, _) => .error error := by
  refine (Decoder.runOn_finished (set.decodeFrom codec) data).trans ?_
  rcases (set.decodeFrom codec).run (Reader.ofBytes data) with ⟨error | value, r⟩ <;> rfl

end WireSchema
