import WireSchema.Proofs.Codec.Reading

/-!
# Readers stay within their data

A call asks for a slice of fixed width at the front of what is unread and then
judges it. If there is no such slice the reader stays where it is; if there is,
the reader goes behind it, whatever the judgement. So after any calls, failed
ones among them, the slices that were read are the data up to the index of the
reader, without a gap and without a repetition.
-/

namespace WireSchema

set_option autoImplicit false

open Schema Decoder

namespace Decoder

/-- Answered or not, the reader is where it was. -/
def Stays {α : Type} (d : Decoder α) : Prop :=
  ∀ r, (d.run r).2 = r

variable {α β : Type}

theorem stays_pure (a : α) : Stays (pure a) := fun _ => rfl

theorem stays_throw (error : CodecError) : Stays (throw error : Decoder α) := fun _ => rfl

theorem Stays.bind {d : Decoder α} {f : α → Decoder β} (hd : d.Stays) (hf : ∀ a, (f a).Stays) :
    Stays (d >>= f) := by
  intro r
  have hr := hd r
  rcases hrun : d.run r with ⟨error | a, s⟩
  · rw [Step.run_bind_error hrun]
    rwa [hrun] at hr
  · rw [Step.run_bind_ok hrun, hf a s]
    rwa [hrun] at hr

end Decoder

namespace Reader

/-- What can be asked of a reader. A byte and a number of four bytes are numbers, an array is bytes. -/
inductive Call where
  | bytes (length : Nat)
  | number (size : Nat)
  | bool
  | count (least : Nat)
  | ensure (length least : Nat)
  | discriminator (expected : Discriminator)

namespace Call

abbrev Answer : Call → Type
  | .bytes _ => List UInt8
  | .number _ | .count _ => Nat
  | .bool => Bool
  | .ensure _ _ | .discriminator _ => Unit

def perform : (call : Call) → Decoder call.Answer
  | .bytes length => Reader.bytes length
  | .number size => Reader.number size
  | .bool => Reader.bool
  | .count least => Reader.count least
  | .ensure length least => Reader.ensure length least
  | .discriminator expected => Reader.discriminator expected

/-- The reader behind a call, answered or not. -/
def next (call : Call) (r : Reader) : Reader :=
  (call.perform.run r).2

/-- How many bytes a call reads. -/
def width : Call → Nat
  | .bytes length => length
  | .number size => size
  | .bool => 1
  | .count _ => 4
  | .ensure _ _ => 0
  | .discriminator _ => 8

/-- How many bytes a call may have read when it fails. -/
def refusable : Call → Nat
  | .bytes _ | .number _ | .ensure _ _ => 0
  | .bool => 1
  | .count _ => 4
  | .discriminator _ => 8

/-- The slice that a call reads: as many bytes as it is wide, or none if there are not so many. -/
def slice (call : Call) (r : Reader) : List UInt8 :=
  match (Reader.bytes call.width).run r with
  | (.ok slice, _) => slice
  | (.error _, _) => []

/-- The bytes that stand for an answer. -/
def spelling : (call : Call) → call.Answer → List UInt8
  | .bytes _, data => data
  | .number size, n => Bytes.leBytes size n
  | .bool, b => [if b then 1 else 0]
  | .count _, n => Bytes.leBytes 4 n
  | .ensure _ _, _ => []
  | .discriminator expected, _ => expected.toList

/-- What a call does with its slice. -/
def judge : (call : Call) → List UInt8 → Decoder call.Answer
  | .bytes _, slice => return slice
  | .number _, slice => return Bytes.leNat slice
  | .bool, slice =>
    match Bytes.leNat slice with
    | 0 => return false
    | 1 => return true
    | n => throw (.invalidBool (UInt8.ofNat n))
  | .count least, slice => do
    Reader.ensure (Bytes.leNat slice) least
    return Bytes.leNat slice
  | .ensure length least, _ => Reader.ensure length least
  | .discriminator expected, slice =>
    match Discriminator.ofBytes? slice with
    | some actual =>
      if actual = expected then return ()
      else throw (.discriminatorMismatch expected actual)
    | none => throw (.unexpectedEnd 8 slice.length)

end Call

/-- The reader that calls leave behind, one after the other. -/
def after : List Call → Reader → Reader
  | [], r => r
  | call :: rest, r => after rest (call.next r)

/-- The slices that calls read, one after the other. -/
def slices : List Call → Reader → List (List UInt8)
  | [], _ => []
  | call :: rest, r => call.slice r :: slices rest (call.next r)

/-- The reader some bytes further on. -/
def skip (r : Reader) (length : Nat) : Reader :=
  ⟨r.index + length, r.rest.drop length⟩

/-- The slice is what the reader goes over on its way from `r` to `s`. -/
structure Advances (r s : Reader) (slice : List UInt8) : Prop where
  rest : r.rest = slice ++ s.rest
  index : s.index = r.index + slice.length

section Advances

variable {r s t : Reader} {x y : List UInt8}

theorem Advances.refl (r : Reader) : r.Advances r [] :=
  ⟨rfl, rfl⟩

theorem Advances.trans (hx : r.Advances s x) (hy : s.Advances t y) : r.Advances t (x ++ y) := by
  constructor
  · rw [hx.rest, hy.rest, List.append_assoc]
  · rw [hy.index, hx.index, List.length_append, Nat.add_assoc]

theorem Advances.unique (hx : r.Advances s x) (hy : r.Advances s y) : x = y :=
  List.append_cancel_right (hx.rest.symm.trans hy.rest)

theorem advances_skip {length : Nat} (h : length ≤ r.remaining) : r.Advances (r.skip length) (r.rest.take length) := by
  constructor
  · exact (List.take_append_drop length r.rest).symm
  · rw [List.length_take_of_le h, skip]

/-- From the start of the data a reader has gone over the data before its index. -/
theorem Advances.of_ofBytes {data : List UInt8} (h : (ofBytes data).Advances r x) :
    x = data.take r.index ∧ r.rest = data.drop r.index ∧ r.index ≤ data.length := by
  have hdata : data = x ++ r.rest := h.rest
  have hindex : r.index = x.length := by rw [h.index, ofBytes, Nat.zero_add]
  subst hdata
  simp [hindex]

end Advances

theorem stays_ensure (length least : Nat) : (ensure length least).Stays := by
  intro r
  rw [run_ensure]

theorem yields_discriminator (expected : Discriminator) :
    Yields (discriminator expected) fun front _ => front = expected.toList := by
  refine yields_bind ((yields_bytes 8).mono ?_)
  rintro front _ ⟨-, rfl⟩
  split
  · next actual hactual =>
    split
    · next heq =>
      apply yields_pure
      rw [List.append_nil, ← heq, Discriminator.toList_of_ofBytes? hactual]
    · exact yields_throw _
  · exact yields_throw _

theorem run_bytes_bind {α : Type} (length : Nat) (judge : List UInt8 → Decoder α) (r : Reader) :
    (bytes length >>= judge).run r
      = if length ≤ r.remaining then (judge (r.rest.take length)).run (r.skip length)
        else (.error (.unexpectedEnd length r.remaining), r) := by
  have hbytes := run_bytes length r
  by_cases hlength : length ≤ r.remaining
  · rw [if_pos (show length ≤ r.rest.length from hlength)] at hbytes
    rw [if_pos hlength, Step.run_bind_ok hbytes]
    rfl
  · rw [if_neg (show ¬ length ≤ r.rest.length from hlength)] at hbytes
    rw [if_neg hlength, Step.run_bind_error hbytes]

namespace Call

variable (call : Call) (r : Reader)

/-- Every call reads one slice, an empty one if it only looks ahead, and judges it. -/
theorem perform_eq : call.perform = Reader.bytes call.width >>= call.judge := by
  cases call with
  | bytes length => exact (bind_pure _).symm
  | number size => rfl
  | bool =>
    rw [perform, Reader.bool, Reader.number, bind_assoc]
    rfl
  | count least =>
    rw [perform, Reader.count, Reader.number, bind_assoc]
    rfl
  | ensure length least => rfl
  | discriminator expected => rfl

theorem stays_judge (slice : List UInt8) : (call.judge slice).Stays := by
  cases call with
  | bytes length => exact stays_pure _
  | number size => exact stays_pure _
  | bool =>
    rw [judge]
    split
    · exact stays_pure _
    · exact stays_pure _
    · exact stays_throw _
  | count least => exact (stays_ensure _ _).bind fun _ => stays_pure _
  | ensure length least => exact stays_ensure _ _
  | discriminator expected =>
    rw [judge]
    split
    · split
      · exact stays_pure _
      · exact stays_throw _
    · exact stays_throw _

theorem width_eq_of_judge_error {slice : List UInt8} {error : CodecError} {s : Reader}
    (h : (call.judge slice).run r = (.error error, s)) : call.width = call.refusable := by
  cases call with
  | bytes length => cases h
  | number size => cases h
  | bool => rfl
  | count least => rfl
  | ensure length least => rfl
  | discriminator expected => rfl

theorem yields_perform : call.perform.Yields fun front answer => front = call.spelling answer := by
  cases call with
  | bytes length => exact (yields_bytes length).mono fun front answer h => h.2.symm
  | number size => exact (yields_number size).mono fun front answer h => h.1
  | bool => exact yields_bool
  | count least => exact (yields_count least).mono fun front answer h => h.1
  | ensure length least => exact yields_ensure length least
  | discriminator expected => exact yields_discriminator expected

theorem next_eq : call.next r = if call.width ≤ r.remaining then r.skip call.width else r := by
  rw [next, perform_eq, run_bytes_bind]
  split
  · exact call.stays_judge _ _
  · rfl

theorem slice_eq : call.slice r = if call.width ≤ r.remaining then r.rest.take call.width else [] := by
  have hrun := run_bytes call.width r
  by_cases h : call.width ≤ r.remaining
  · rw [if_pos (show call.width ≤ r.rest.length from h)] at hrun
    rw [slice, hrun, if_pos h]
  · rw [if_neg (show ¬ call.width ≤ r.rest.length from h)] at hrun
    rw [slice, hrun, if_neg h]

theorem advances : r.Advances (call.next r) (call.slice r) := by
  rw [next_eq, slice_eq]
  split
  · next h => exact advances_skip h
  · exact Advances.refl r

theorem slice_of_answer {answer : call.Answer} (h : (call.perform.run r).1 = .ok answer) :
    call.slice r = call.spelling answer := by
  obtain ⟨front, hrest, hindex, hfront⟩ := call.yields_perform r answer (call.next r) (Prod.ext h rfl)
  rw [← hfront]
  exact (call.advances r).unique ⟨hrest, hindex⟩

theorem length_slice_of_answer {answer : call.Answer} (h : (call.perform.run r).1 = .ok answer) :
    (call.slice r).length = call.width := by
  rw [perform_eq, run_bytes_bind] at h
  split at h
  · next hwidth => rw [slice_eq, if_pos hwidth, List.length_take_of_le hwidth]
  · cases h

/-- A call that fails has not moved the reader, or has moved it over what it refused. -/
theorem next_of_failure {error : CodecError} (h : (call.perform.run r).1 = .error error) :
    call.next r = r ∨ call.next r = r.skip call.refusable := by
  rw [perform_eq, run_bytes_bind] at h
  rw [next_eq]
  split
  · next hwidth =>
    rw [if_pos hwidth] at h
    right
    rw [call.width_eq_of_judge_error (r.skip call.width) (Prod.ext h rfl)]
  · exact .inl rfl

end Call

theorem advances_after (calls : List Call) (r : Reader) : r.Advances (after calls r) (slices calls r).flatten := by
  induction calls generalizing r with
  | nil => exact Advances.refl r
  | cons call rest ih => exact (call.advances r).trans (ih (call.next r))

/-- Whatever was asked of a reader, it is within its data, and the slices that it read are the data up to its index.
What is asked next moves it over one more slice, which spells the answer; a failure has not moved it unless it
refused what it read. -/
theorem calls_within_data (data : List UInt8) (calls : List Call) (call : Call) :
    let r := after calls (ofBytes data)
    let s := call.next r
    r.index ≤ data.length ∧ r.rest = data.drop r.index ∧ (slices calls (ofBytes data)).flatten = data.take r.index
      ∧ s.index = r.index + (call.slice r).length ∧ s.index ≤ data.length
      ∧ match (call.perform.run r).1 with
        | .ok answer => (call.slice r).length = call.width ∧ call.slice r = call.spelling answer
        | .error _ => s = r ∨ s = r.skip call.refusable := by
  intro r s
  have hr := advances_after calls (ofBytes data)
  have hs := hr.trans (call.advances r)
  obtain ⟨hslices, hrest, hindex⟩ := hr.of_ofBytes
  refine ⟨hindex, hrest, hslices, (call.advances r).index, hs.of_ofBytes.2.2, ?_⟩
  split
  · next answer hanswer => exact ⟨call.length_slice_of_answer r hanswer, call.slice_of_answer r hanswer⟩
  · next error herror => exact call.next_of_failure r herror

example :
    let calls : List Call := [.bool, .count 2, .bytes 9, .ensure 2 1, .number 1]
    let r := ofBytes [2, 3, 0, 0, 0, 7, 8]
    after calls r = ⟨6, [8]⟩ ∧ slices calls r = [[2], [3, 0, 0, 0], [], [], [7]] := by decide

end Reader

end WireSchema
