import WireSchema.Proofs.Text.Boundary
import WireSchema.Schema.Error

/-!
# What a message shows of a value

A value whose text is long is shown by a beginning of it. The beginning is got by
counting characters by their sizes from the front; going back in the bytes from
the limit to where a character begins comes to the same.
-/

namespace WireSchema.Schema

set_option autoImplicit false

open Text

/-- Any beginning that fits is part of the one that is kept. -/
theorem isPrefix_cutToBytes {budget : Nat} {head text : List Char} (h : head <+: text)
    (hfits : (String.ofList head).utf8ByteSize ≤ budget) : head <+: cutToBytes budget text := by
  induction text generalizing head budget with
  | nil => exact h
  | cons c text ih =>
    cases head with
    | nil => exact List.nil_prefix
    | cons d head =>
      obtain ⟨rfl, hrest⟩ := List.cons_prefix_cons.mp h
      rw [String.ofList_cons, String.utf8ByteSize_append, String.utf8ByteSize_singleton] at hfits
      rw [cutToBytes, if_pos (by omega)]
      exact List.cons_prefix_cons.mpr ⟨rfl, ih hrest (by omega)⟩

theorem longestWithin_cutToBytes (limit : Nat) (text : String) :
    LongestWithin limit (String.ofList (cutToBytes limit text.toList)) text where
  beginning := by
    rw [String.toList_ofList]
    exact cutToBytes_isPrefix limit text.toList
  fits := utf8ByteSize_cutToBytes_le limit text.toList
  longest := fun other hother hfits => by
    rw [String.toList_ofList]
    exact isPrefix_cutToBytes hother (by rwa [String.ofList_toList])

/-- What is kept of a text is what stands before the first boundary that is met going back from the limit. -/
theorem ofUtf8?_take_eq_cutToBytes (limit : Nat) (text : String) :
    ofUtf8? ((utf8 text).take (boundaryBack (utf8 text) limit))
      = some (String.ofList (cutToBytes limit text.toList)) := by
  obtain ⟨head, hhead, hlongest⟩ := exists_longestWithin text limit
  rw [hhead, hlongest.unique (longestWithin_cutToBytes limit text)]

/-- A value whose text has at most 200 bytes is shown whole. Of any other the longest beginning with at most 200
bytes is shown, and three dots; it ends where going back from byte 200 first comes to a boundary, which takes three
steps at most, and so never within a character. -/
theorem payload_cut (json : Json) :
    (json.compact.utf8ByteSize ≤ 200 → payload json = json.compact)
      ∧ (200 < json.compact.utf8ByteSize →
          ∃ head, payload json = head ++ "..."
            ∧ LongestWithin 200 head json.compact
            ∧ 200 ≤ boundaryBack (utf8 json.compact) 200 + 3
            ∧ ofUtf8? ((utf8 json.compact).take (boundaryBack (utf8 json.compact) 200)) = some head) := by
  constructor
  · intro hshort
    exact if_pos hshort
  · intro hlong
    refine ⟨String.ofList (cutToBytes 200 json.compact.toList), ?_, ?_, ?_, ?_⟩
    · exact if_neg (Nat.not_le_of_lt hlong)
    · exact longestWithin_cutToBytes 200 json.compact
    · exact le_boundaryBack_add_three (Nat.le_of_lt hlong)
    · exact ofUtf8?_take_eq_cutToBytes 200 json.compact

/-- Byte 200 is the last of four that make one character, which is left out whole. -/
theorem payload_cut_within_character :
    let json := Json.str (String.ofList (List.replicate 50 '😀'))
    200 < json.compact.utf8ByteSize
      ∧ payload json = String.ofList ('"' :: List.replicate 49 '😀') ++ "..."
      ∧ Json.null.compact.utf8ByteSize ≤ 200
      ∧ payload .null = "null" := by
  intro json
  have hbytes : utf8 json.compact = 34 :: (List.replicate 50 [240, 159, 152, 128]).flatten ++ [34] := by
    have hcompact : json.compact = Json.string (String.ofList (List.replicate 50 '😀')) := rfl
    rw [hcompact, Json.string, String.toList_ofList, utf8_ofList]
    decide +kernel
  have hlong : 200 < json.compact.utf8ByteSize := by
    rw [← length_utf8, hbytes]
    decide +kernel
  have hshort : Json.null.compact.utf8ByteSize ≤ 200 := by decide
  obtain ⟨head, hpayload, -, -, hhead⟩ := (payload_cut json).2 hlong
  have hcut : (utf8 json.compact).take (boundaryBack (utf8 json.compact) 200)
      = utf8 (String.ofList ('"' :: List.replicate 49 '😀')) := by
    rw [hbytes, utf8_ofList]
    decide +kernel
  rw [hcut, ofUtf8?_utf8] at hhead
  obtain rfl := Option.some.inj hhead
  exact ⟨hlong, hpayload, hshort, (payload_cut .null).1 hshort⟩

end WireSchema.Schema
