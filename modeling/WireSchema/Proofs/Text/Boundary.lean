import Mathlib.Data.Nat.Find
import WireSchema.Text.Utf8

/-!
# Where a text can be cut

The bytes of a text can be cut where a character begins and at the end of the
text; anywhere else what stands in front is no text. The byte behind the cut
tells: one that begins a character is of another class than one that goes on
with it. A character has four bytes at most, so whoever goes back byte by byte
from inside a text is at such a place after three steps.
-/

namespace WireSchema.Text

set_option autoImplicit false

/-- Whether a byte begins a character. Any other byte goes on with one. -/
def leads (byte : UInt8) : Bool :=
  byte < 0x80 || 0xC0 ≤ byte

/-- Whether a character begins at a place, or the text ends there. -/
def isBoundary (bytes : List UInt8) (place : Nat) : Bool :=
  match bytes[place]? with
  | some byte => leads byte
  | none => place = bytes.length

/-- The first boundary that is met going back from a place, one byte at a time. -/
def boundaryBack (bytes : List UInt8) : Nat → Nat
  | 0 => 0
  | place + 1 => if isBoundary bytes (place + 1) then place + 1 else boundaryBack bytes place

section Utf8

theorem utf8_ofList (cs : List Char) : utf8 (String.ofList cs) = cs.flatMap String.utf8EncodeChar := by
  rw [utf8, String.toByteArray_ofList]
  exact List.toList_data_toByteArray

@[simp] theorem utf8_append (s t : String) : utf8 (s ++ t) = utf8 s ++ utf8 t := by
  rw [utf8, String.toByteArray_append, ByteArray.data_append, Array.toList_append]
  rfl

theorem length_utf8 (text : String) : (utf8 text).length = text.utf8ByteSize :=
  String.size_toByteArray

/-- No byte of a text is in the class that no character makes use of. -/
theorem toNat_lt_of_mem_utf8 {text : String} {byte : UInt8} (h : byte ∈ utf8 text) : byte.toNat < 0xF8 := by
  rw [← String.ofList_toList (s := text), utf8_ofList, List.mem_flatMap] at h
  obtain ⟨c, -, hbyte⟩ := h
  have hofNat : ∀ {n : Nat}, n < 0xF8 → (UInt8.ofNat n).toNat < 0xF8 := fun hn => by
    rw [UInt8.toNat_ofNat']
    omega
  rw [String.utf8EncodeChar] at hbyte
  -- One case for each number of bytes that a character can have.
  split_ifs at hbyte <;> simp only [List.mem_cons, List.not_mem_nil, or_false] at hbyte
  · subst hbyte
    exact hofNat (by omega)
  · rcases hbyte with rfl | rfl <;> exact hofNat (by omega)
  · rcases hbyte with rfl | rfl | rfl <;> exact hofNat (by omega)
  · rcases hbyte with rfl | rfl | rfl | rfl <;> exact hofNat (by omega)

theorem leads_iff {byte : UInt8} (h : byte.toNat < 0xF8) : leads byte ↔ byte.IsUTF8FirstByte := by
  have hall : ∀ n < 0xF8, leads (UInt8.ofNat n) ↔ (UInt8.ofNat n).IsUTF8FirstByte := by
    decide +kernel
  rw [← UInt8.ofNat_toNat (x := byte)]
  exact hall byte.toNat h

end Utf8

section Boundary

variable {text : String} {place : Nat}

theorem getElem?_utf8 (h : place < text.utf8ByteSize) :
    (utf8 text)[place]? = some (text.getUTF8Byte ⟨place⟩ h) := by
  have hlength : place < (utf8 text).length := by rwa [length_utf8]
  rw [List.getElem?_eq_getElem hlength]
  rfl

theorem isBoundary_iff_isValid : isBoundary (utf8 text) place ↔ String.Pos.Raw.IsValid text ⟨place⟩ := by
  rw [String.Pos.Raw.isValid_iff_isUTF8FirstByte, isBoundary]
  by_cases hin : place < text.utf8ByteSize
  · have hbyte := getElem?_utf8 hin
    rw [hbyte]
    have hne : (⟨place⟩ : String.Pos.Raw) ≠ text.rawEndPos := fun heq =>
      Nat.ne_of_lt hin (congrArg String.Pos.Raw.byteIdx heq)
    have hleads := leads_iff (toNat_lt_of_mem_utf8 (List.mem_of_getElem? hbyte))
    exact ⟨fun h => .inr ⟨hin, hleads.mp h⟩, fun h => hleads.mpr (h.resolve_left hne).2⟩
  · rw [List.getElem?_eq_none (by rw [length_utf8]; omega), length_utf8]
    have hend : (⟨place⟩ : String.Pos.Raw) = text.rawEndPos ↔ place = text.utf8ByteSize := String.Pos.Raw.ext_iff
    rw [hend, decide_eq_true_iff, or_iff_left]
    exact fun ⟨hlt, _⟩ => hin hlt

/-- The class of the byte at a place tells whether the text can be taken apart there. -/
theorem isBoundary_iff :
    isBoundary (utf8 text) place ↔ ∃ head rest, text = head ++ rest ∧ head.utf8ByteSize = place := by
  rw [isBoundary_iff_isValid, String.Pos.Raw.isValid_iff_exists_append]
  simp only [String.Pos.Raw.ext_iff, String.byteIdx_rawEndPos, eq_comm]

end Boundary

section Loop

variable {bytes : List UInt8} {place other : Nat}

theorem boundaryBack_eq_findGreatest :
    boundaryBack bytes place = Nat.findGreatest (fun q => isBoundary bytes q) place := by
  induction place with
  | zero => rfl
  | succ place ih => rw [boundaryBack, Nat.findGreatest_succ, ih]

theorem boundaryBack_le : boundaryBack bytes place ≤ place := by
  rw [boundaryBack_eq_findGreatest]
  exact Nat.findGreatest_le place

theorem le_boundaryBack (h : isBoundary bytes other) (hle : other ≤ place) : other ≤ boundaryBack bytes place := by
  rw [boundaryBack_eq_findGreatest]
  exact Nat.le_findGreatest hle h

theorem isBoundary_boundaryBack (h : isBoundary bytes 0) : isBoundary bytes (boundaryBack bytes place) := by
  rw [boundaryBack_eq_findGreatest]
  exact Nat.findGreatest_spec (P := fun q => isBoundary bytes q) (Nat.zero_le place) h

end Loop

/-- The longest beginning of a text, in whole characters, that has at most so many bytes. -/
structure LongestWithin (limit : Nat) (head text : String) : Prop where
  beginning : head.toList <+: text.toList
  fits : head.utf8ByteSize ≤ limit
  longest : ∀ other : String, other.toList <+: text.toList → other.utf8ByteSize ≤ limit →
    other.toList <+: head.toList

theorem LongestWithin.unique {limit : Nat} {head other text : String} (h : LongestWithin limit head text)
    (hother : LongestWithin limit other text) : head = other := by
  have hforth := hother.longest head h.beginning h.fits
  have hback := h.longest other hother.beginning hother.fits
  exact String.toList_inj.mp (hforth.eq_of_length_le hback.length_le)

theorem isPrefix_iff {head text : String} : head.toList <+: text.toList ↔ ∃ rest, text = head ++ rest := by
  constructor
  · rintro ⟨rest, hrest⟩
    refine ⟨String.ofList rest, String.toList_inj.mp ?_⟩
    rw [String.toList_append, String.toList_ofList, hrest]
  · rintro ⟨rest, rfl⟩
    rw [String.toList_append]
    exact List.prefix_append _ _

/-- Going back from any place ends where the text can be taken apart. -/
theorem exists_head (text : String) (place : Nat) :
    ∃ head rest, text = head ++ rest ∧ head.utf8ByteSize = boundaryBack (utf8 text) place :=
  isBoundary_iff.mp (isBoundary_boundaryBack (isBoundary_iff.mpr ⟨"", text, String.empty_append.symm, rfl⟩))

section Cut

variable {text : String} {place : Nat}

/-- The character that a place is in begins at most three bytes before it. -/
theorem le_boundaryBack_add_three (h : place ≤ text.utf8ByteSize) : place ≤ boundaryBack (utf8 text) place + 3 := by
  obtain ⟨head, rest, rfl, hhead⟩ := exists_head text place
  cases hrest : rest.toList with
  | nil =>
    obtain rfl : rest = "" := String.toList_eq_nil_iff.mp hrest
    rw [String.append_empty] at h hhead ⊢
    omega
  | cons c cs =>
    -- Behind the character is a boundary again, and it was not met on the way back.
    have hrest' : rest = String.singleton c ++ String.ofList cs := by
      rw [← String.ofList_cons, ← hrest, String.ofList_toList]
    have hbehind : isBoundary (utf8 (head ++ rest)) (head.utf8ByteSize + c.utf8Size) := by
      refine isBoundary_iff.mpr ⟨head ++ String.singleton c, String.ofList cs, ?_, ?_⟩
      · rw [hrest', String.append_assoc]
      · rw [String.utf8ByteSize_append, String.utf8ByteSize_singleton]
    have hmissed : ¬ head.utf8ByteSize + c.utf8Size ≤ place := fun hle => by
      have := le_boundaryBack hbehind hle
      have := c.utf8Size_pos
      omega
    have := c.utf8Size_le_four
    omega

/-- What stands before the first boundary met from a place is the longest beginning that does not go beyond it. -/
theorem longestWithin_boundaryBack {head rest : String} (htext : text = head ++ rest)
    (h : head.utf8ByteSize = boundaryBack (utf8 text) place) : LongestWithin place head text := by
  have hbeginning : head.toList <+: text.toList := isPrefix_iff.mpr ⟨rest, htext⟩
  have hfits : head.utf8ByteSize ≤ place := by
    rw [h]
    exact boundaryBack_le
  refine ⟨hbeginning, hfits, fun other hother hotherFits => ?_⟩
  obtain ⟨others, hothers⟩ := isPrefix_iff.mp hother
  have hle : other.utf8ByteSize ≤ head.utf8ByteSize := by
    rw [h]
    exact le_boundaryBack (isBoundary_iff.mpr ⟨other, others, hothers, rfl⟩) hotherFits
  rcases List.prefix_or_prefix_of_prefix hother hbeginning with hshorter | hlonger
  · exact hshorter
  · obtain ⟨more, rfl⟩ := isPrefix_iff.mp hlonger
    have hempty : more = "" := by
      rw [String.utf8ByteSize_append] at hle
      exact String.utf8ByteSize_eq_zero_iff.mp (by omega)
    simp only [hempty, String.append_empty, List.prefix_rfl]

end Cut

/-- The bytes in front of the first boundary met from a place are a text: the longest beginning up to there. -/
theorem exists_longestWithin (text : String) (place : Nat) :
    ∃ head, ofUtf8? ((utf8 text).take (boundaryBack (utf8 text) place)) = some head
      ∧ LongestWithin place head text := by
  obtain ⟨head, rest, htext, hhead⟩ := exists_head text place
  refine ⟨head, ?_, longestWithin_boundaryBack htext hhead⟩
  rw [← hhead, htext, utf8_append, List.take_left' (length_utf8 head), ofUtf8?_utf8]

example : boundaryBack (utf8 "aé😀b") 6 = 3 ∧ ofUtf8? ((utf8 "aé😀b").take 6) = none := by decide +kernel

end WireSchema.Text
