import WireSchema.Proofs.Json.Number
import WireSchema.Proofs.Unicode.Trim
import WireSchema.Schema.Record

/-!
# Strings and arrays of bytes as whole texts

A text without white space at its end is a string exactly if quotes stand
around what spells the string, and it is an array of bytes exactly if the
decimal texts of the bytes stand between brackets, with commas between them and
blanks around them. Arrays of other values are not looked at.
-/

namespace WireSchema.Json

set_option autoImplicit false

open Decimal (twoTo)
open Unicode (isBlank IsTrimmed)
open Schema (ValueReader)

section Gaps

variable {gap text rest : List Char} {c : Char}

/-- Nothing but the blanks that may stand between the parts of a text. -/
def IsGap (gap : List Char) : Prop :=
  ∀ c ∈ gap, isGap c = true

theorem skipGap_append (h : IsGap gap) (text : List Char) : skipGap (gap ++ text) = skipGap text :=
  List.dropWhile_append_of_pos h

theorem skipGap_cons (h : isGap c = false) (text : List Char) : skipGap (c :: text) = c :: text :=
  List.dropWhile_cons_of_neg (by simp [h])

@[simp] theorem skipGap_skipGap (text : List Char) : skipGap (skipGap text) = skipGap text :=
  List.dropWhile_idempotent isGap text

theorem exists_gap (text : List Char) : ∃ gap, IsGap gap ∧ text = gap ++ skipGap text :=
  ⟨text.takeWhile isGap, fun _ => List.mem_takeWhile_imp, List.takeWhile_append_dropWhile.symm⟩

/-- Blanks at the end of a text that does not end in white space are none. -/
theorem eq_nil_of_skipGap (h : ∀ c ∈ (text ++ rest).getLast?, isBlank c = false) (hrest : skipGap rest = []) :
    rest = [] := by
  by_contra hne
  have hlast : rest.getLast hne ∈ (text ++ rest).getLast? := by
    rw [List.getLast?_append, List.getLast?_eq_some_getLast hne]
    rfl
  have hgap := List.dropWhile_eq_nil_iff.mp hrest (rest.getLast hne) (List.getLast_mem hne)
  have hblank := h _ hlast
  rw [isBlank_of_isGap hgap] at hblank
  cases hblank

theorem skipGap_of_isTrimmed (h : IsTrimmed text) : skipGap text = text := by
  cases text with
  | nil => rfl
  | cons c text =>
    apply skipGap_cons
    by_contra hgap
    have hblank := h.first c rfl
    rw [isBlank_of_isGap (Bool.not_eq_false _ ▸ hgap)] at hblank
    cases hblank

end Gaps

section Values

variable {fuel levels : Nat} {text next rest : List Char}

theorem ofText_eq_ok_iff {text : String} {json : Json} : ofText text = .ok json ↔
    ∃ rest, valueOf (2 * text.toList.length + 2) maxLevels text.toList = .ok (json, rest) ∧ skipGap rest = [] := by
  constructor
  · intro h
    obtain ⟨⟨found, rest⟩, hfound, h⟩ := Step.ok_of_bind h
    dsimp only at h
    split at h
    · next hrest =>
      cases h
      exact ⟨rest, hfound, hrest⟩
    · cases h
  · rintro ⟨rest, hfound, hrest⟩
    simp only [ofText, hfound, bind, Except.bind, hrest]
    rfl

@[simp] theorem valueOf_skipGap (fuel levels : Nat) (text : List Char) :
    valueOf fuel levels (skipGap text) = valueOf fuel levels text := by
  cases fuel <;> simp [valueOf]

@[simp] theorem itemsOf_skipGap (fuel levels : Nat) (text : List Char) :
    itemsOf fuel levels (skipGap text) = itemsOf fuel levels text := by
  cases fuel <;> simp [itemsOf]

theorem valueOf_quote (h : skipGap text = '"' :: next) : valueOf (fuel + 1) levels text = do
    let (found, rest) ← stringOf next
    return (.str found, rest) := by
  rw [valueOf, h]
  rfl

@[simp] theorem digit?_bracket : digit? '[' = none := rfl

theorem valueOf_empty (h : skipGap text = '[' :: next) (hnext : skipGap next = ']' :: rest) :
    valueOf (fuel + 1) (levels + 1) text = .ok (.arr [], rest) := by
  rw [valueOf, h]
  simp [hnext]

theorem valueOf_items (h : skipGap text = '[' :: next) (hnext : ∀ rest, skipGap next ≠ ']' :: rest) :
    valueOf (fuel + 1) (levels + 1) text = do
      let (items, rest) ← itemsOf fuel levels next
      return (.arr items, rest) := by
  rw [valueOf, h, ← itemsOf_skipGap fuel levels next]
  simp

theorem valueOf_digit {c : Char} (h : skipGap text = c :: next) (hc : c.isDigit = true) :
    valueOf (fuel + 1) levels text = numberOf false (c :: next) := by
  have hdigit : (digit? c).isSome = true := by simp [digit?_eq, hc]
  rw [valueOf, h]
  dsimp only
  rw [if_neg (ne_of_class hc rfl), if_neg (ne_of_class hc rfl), if_neg (ne_of_class hc rfl),
    if_neg (ne_of_class hc rfl), if_pos hdigit]

/-- Only a number leads to an integer. -/
theorem numberOf_of_valueOf {n : Int} (h : valueOf fuel levels text = .ok (.int n, rest)) :
    ∃ c next, skipGap text = c :: next
      ∧ (numberOf true next = .ok (.int n, rest) ∨ numberOf false (c :: next) = .ok (.int n, rest)) := by
  cases fuel with
  | zero =>
    rw [valueOf] at h
    cases h
  | succ fuel =>
    rw [valueOf] at h
    split at h
    · cases h
    next c next hskip =>
    refine ⟨c, next, hskip, ?_⟩
    -- Keywords, strings, arrays and objects come to values of other kinds.
    iterate 3
      split at h
      · obtain ⟨_, -, h⟩ := Step.ok_of_bind h
        cases h
    split at h
    · exact .inl h
    split at h
    · exact .inr h
    split at h
    · obtain ⟨_, -, h⟩ := Step.ok_of_bind h
      cases h
    iterate 2
      split at h
      · split at h
        · cases h
        · cases h
        · obtain ⟨_, -, h⟩ := Step.ok_of_bind h
          cases h
    cases h

theorem eq_toDigits_of_valueOf {n : Nat} (h : valueOf fuel levels text = .ok (.int n, rest)) :
    skipGap text = Nat.toDigits 10 n ++ rest := by
  obtain ⟨c, next, hskip, hnegative | hnatural⟩ := numberOf_of_valueOf h
  · cases (eq_toDigits_of_numberOf hnegative).1
  · rw [hskip]
    exact (eq_toDigits_of_numberOf hnatural).2

theorem exists_digit (n : Nat) : ∃ c digits, Nat.toDigits 10 n = c :: digits ∧ c.isDigit = true := by
  obtain ⟨c, digits, hdigits⟩ := List.exists_cons_of_ne_nil (Nat.toDigits_ne_nil (n := n) (b := 10))
  refine ⟨c, digits, hdigits, Nat.isDigit_of_mem_toDigits (b := 10) (n := n) (by decide) (by decide) ?_⟩
  rw [hdigits]
  exact List.mem_cons_self

theorem skipGap_digits {gap : List Char} (hgap : IsGap gap) (n : Nat) (rest : List Char) :
    skipGap (gap ++ (Nat.toDigits 10 n ++ rest)) = Nat.toDigits 10 n ++ rest := by
  obtain ⟨c, digits, hdigits, hc⟩ := exists_digit n
  rw [skipGap_append hgap, hdigits]
  apply skipGap_cons
  simp [isGap, ne_of_class hc]

theorem valueOf_toDigits {gap : List Char} {n : Nat} (hgap : IsGap gap) (hn : n < twoTo 64) (hrest : EndsNumber rest) :
    valueOf (fuel + 1) levels (gap ++ (Nat.toDigits 10 n ++ rest)) = .ok (.int n, rest) := by
  obtain ⟨c, digits, hdigits, hc⟩ := exists_digit n
  have hskip : skipGap (gap ++ (Nat.toDigits 10 n ++ rest)) = c :: (digits ++ rest) := by
    rw [skipGap_digits hgap, hdigits, List.cons_append]
  rw [valueOf_digit hskip hc, ← List.cons_append, ← hdigits, numberOf_toDigits hn hrest]

/-- The quote or the bracket that a string or an array begins with. -/
theorem first_of_valueOf {json : Json} (h : valueOf fuel levels text = .ok (json, rest)) :
    match json with
    | .str _ => ∃ next, skipGap text = '"' :: next
    | .arr _ => ∃ next, skipGap text = '[' :: next
    | _ => True := by
  obtain ⟨ms, hms⟩ := (readsWritten fuel).value h
  -- The value of an object is no pattern, so the cases are those of any piece.
  generalize hpiece : Piece.value json = piece at hms
  cases hms with
  | atom hatom =>
    obtain rfl := Piece.value.inj hpiece
    cases json with
    | str | arr => cases hatom
    | _ => trivial
  | str _ hskip =>
    obtain rfl := Piece.value.inj hpiece
    exact ⟨_, hskip⟩
  | emptyArr hskip =>
    obtain rfl := Piece.value.inj hpiece
    exact ⟨_, hskip⟩
  | arr hskip =>
    obtain rfl := Piece.value.inj hpiece
    exact ⟨_, hskip⟩
  | emptyObj | obj =>
    obtain rfl := Piece.value.inj hpiece
    trivial
  | lastItem | item | lastMember | member => cases hpiece

end Values

section Bytes

variable {fuel levels : Nat} {text next rest : List Char} {data : List UInt8} {b : UInt8}

/-- A byte as an item of an array: its decimal digits, with blanks around them. -/
def WritesByte (item : List Char) (b : UInt8) : Prop :=
  ∃ before after, IsGap before ∧ IsGap after ∧ item = before ++ (Nat.toDigits 10 b.toNat ++ after)

/-- What is behind the opening bracket of an array of bytes, up to the closing one; at least one byte. -/
inductive WritesItems : List Char → List UInt8 → Prop where
  | last {item : List Char} {b : UInt8} : WritesByte item b → WritesItems (item ++ [']']) [b]
  | more {item text : List Char} {b : UInt8} {data : List UInt8} : WritesByte item b → WritesItems text data →
      WritesItems (item ++ ',' :: text) (b :: data)

/-- An array of bytes. -/
inductive WritesBytes : List Char → List UInt8 → Prop where
  | empty {gap : List Char} : IsGap gap → WritesBytes ('[' :: (gap ++ [']'])) []
  | items {text : List Char} {data : List UInt8} : WritesItems text data → WritesBytes ('[' :: text) data

def ofByte (b : UInt8) : Json :=
  .int b.toNat

theorem endsNumber_of_gap {gap : List Char} {c : Char} (hgap : IsGap gap) (hc : EndsNumber (c :: rest)) :
    EndsNumber (gap ++ c :: rest) := by
  cases gap with
  | nil => exact hc
  | cons g gap =>
    rintro _ ⟨rfl⟩
    rcases isGap_cases (hgap g List.mem_cons_self) with rfl | rfl | rfl | rfl <;> decide

theorem separationOf_close {close : Char} (h : skipGap text = close :: rest) :
    separationOf close text = .ok (.closed rest) := by
  rw [separationOf, h]
  exact if_pos rfl

theorem separationOf_comma {close : Char} (hclose : ',' ≠ close) (h : skipGap text = ',' :: rest) :
    separationOf close text = .ok (.more rest) := by
  rw [separationOf, h]
  exact (if_neg hclose).trans (if_pos rfl)

theorem valueOf_writesByte {item : List Char} {c : Char} (hitem : WritesByte item b) (hc : EndsNumber (c :: rest))
    (hgap : isGap c = false) (fuel levels : Nat) :
    ∃ after, valueOf (fuel + 1) levels (item ++ c :: rest) = .ok (ofByte b, after) ∧ skipGap after = c :: rest := by
  obtain ⟨before, after, hbefore, hafter, rfl⟩ := hitem
  have hb : b.toNat < twoTo 64 := Nat.lt_trans b.toNat_lt (by decide)
  refine ⟨after ++ c :: rest, ?_, by rw [skipGap_append hafter, skipGap_cons hgap]⟩
  rw [List.append_assoc, List.append_assoc, valueOf_toDigits hbefore hb (endsNumber_of_gap hafter hc)]
  rfl

theorem writesByte_of_valueOf {after : List Char} {c : Char} (h : valueOf fuel levels text = .ok (ofByte b, after))
    (hafter : skipGap after = c :: rest) : ∃ item, WritesByte item b ∧ text = item ++ c :: rest := by
  obtain ⟨before, hbefore, htext⟩ := exists_gap text
  obtain ⟨gap, hgap, heq⟩ := exists_gap after
  refine ⟨before ++ (Nat.toDigits 10 b.toNat ++ gap), ⟨before, gap, hbefore, hgap, rfl⟩, ?_⟩
  rw [htext, eq_toDigits_of_valueOf h, heq, hafter]
  simp

/-- With fuel for each byte and one step more, the bytes are read up to the closing bracket. -/
theorem itemsOf_of_writesItems (h : WritesItems text data) (hfuel : data.length < fuel) (levels : Nat)
    (rest : List Char) : itemsOf fuel levels (text ++ rest) = .ok (data.map ofByte, rest) := by
  have hends : ∀ {c : Char}, c = ',' ∨ c = ']' → ∀ rest, EndsNumber (c :: rest) := by
    rintro _ (rfl | rfl) rest _ ⟨rfl⟩ <;> decide
  induction h generalizing fuel with
  | last hitem =>
    -- One step for the item, and one for its value.
    obtain ⟨fuel, rfl⟩ := Nat.exists_eq_add_of_le' (show 2 ≤ fuel from hfuel)
    obtain ⟨after, hvalue, hskip⟩ := valueOf_writesByte hitem (hends (.inr rfl) rest) rfl fuel levels
    rw [itemsOf, List.append_assoc, List.cons_append, List.nil_append, hvalue]
    simp only [bind, Except.bind, separationOf_close hskip]
    rfl
  | @more item text b data hitem _ ih =>
    have hmany : 2 ≤ fuel := by
      rw [List.length_cons] at hfuel
      omega
    obtain ⟨fuel, rfl⟩ := Nat.exists_eq_add_of_le' hmany
    obtain ⟨after, hvalue, hskip⟩ := valueOf_writesByte hitem (hends (.inl rfl) (text ++ rest)) rfl fuel levels
    have hclose : ',' ≠ ']' := by decide
    have hothers : itemsOf (fuel + 1) levels (text ++ rest) = .ok (data.map ofByte, rest) :=
      ih (Nat.lt_of_succ_lt_succ hfuel)
    rw [itemsOf, List.append_assoc, List.cons_append, hvalue]
    simp only [bind, Except.bind, separationOf_comma hclose hskip, hothers]
    rfl

/-- Bytes that are read up to the closing bracket stand there. -/
theorem writesItems_of_itemsOf (h : itemsOf fuel levels text = .ok (data.map ofByte, rest)) :
    ∃ used, text = used ++ rest ∧ WritesItems used data := by
  induction fuel generalizing text data with
  | zero =>
    rw [itemsOf] at h
    cases h
  | succ fuel ih =>
    rw [itemsOf] at h
    obtain ⟨⟨value, after⟩, hvalue, h⟩ := Step.ok_of_bind h
    obtain ⟨separation, hseparation, h⟩ := Step.ok_of_bind h
    rcases separationOf_eq_ok hseparation with ⟨next, hclose, rfl⟩ | ⟨next, hcomma, rfl⟩
    · obtain ⟨hdata, rfl⟩ := Prod.mk.inj (Except.ok.inj h)
      obtain ⟨b, rfl, rfl⟩ := List.map_eq_singleton_iff.mp hdata.symm
      obtain ⟨item, hitem, rfl⟩ := writesByte_of_valueOf hvalue hclose
      exact ⟨item ++ [']'], by simp, .last hitem⟩
    · obtain ⟨⟨others, final⟩, hothers, h⟩ := Step.ok_of_bind h
      obtain ⟨hdata, rfl⟩ := Prod.mk.inj (Except.ok.inj h)
      obtain ⟨b, data, rfl, rfl, rfl⟩ := List.map_eq_cons_iff.mp hdata.symm
      obtain ⟨item, hitem, rfl⟩ := writesByte_of_valueOf hvalue hcomma
      obtain ⟨used, rfl, hused⟩ := ih hothers
      exact ⟨item ++ ',' :: used, by simp, .more hitem hused⟩

theorem WritesItems.length_le (h : WritesItems text data) : data.length ≤ text.length := by
  induction h with
  | last => simp
  | more _ _ ih =>
    simp only [List.length_cons, List.length_append]
    omega

theorem WritesBytes.length_le (h : WritesBytes text data) : data.length ≤ text.length := by
  cases h with
  | empty => exact Nat.zero_le _
  | items h => exact Nat.le_succ_of_le h.length_le

theorem WritesItems.skipGap_ne (h : WritesItems text data) (rest others : List Char) :
    skipGap (text ++ rest) ≠ ']' :: others := by
  have hitem : ∀ {item b}, WritesByte item b → ∀ rest, skipGap (item ++ rest) ≠ ']' :: others := by
    rintro _ b ⟨before, after, hbefore, -, rfl⟩ rest hskip
    obtain ⟨c, digits, hdigits, hc⟩ := exists_digit b.toNat
    rw [List.append_assoc, List.append_assoc, skipGap_digits hbefore, hdigits] at hskip
    exact ne_of_class hc rfl (List.cons.inj hskip).1
  cases h with
  | last h =>
    rw [List.append_assoc]
    exact hitem h _
  | more h _ =>
    rw [List.append_assoc]
    exact hitem h _

theorem valueOf_of_writesBytes (h : WritesBytes text data) (hfuel : data.length < fuel) (levels : Nat)
    (rest : List Char) : valueOf (fuel + 1) (levels + 1) (text ++ rest) = .ok (.arr (data.map ofByte), rest) := by
  cases h with
  | @empty gap hgap =>
    have hnext : skipGap (gap ++ [']'] ++ rest) = ']' :: rest := by
      rw [List.append_assoc, skipGap_append hgap]
      exact skipGap_cons rfl rest
    exact valueOf_empty (skipGap_cons rfl _) hnext
  | items h =>
    rw [List.cons_append, valueOf_items (skipGap_cons rfl _) (h.skipGap_ne rest),
      itemsOf_of_writesItems h hfuel]
    rfl

theorem writesBytes_of_valueOf (hskip : skipGap text = '[' :: next)
    (h : valueOf (fuel + 1) (levels + 1) text = .ok (.arr (data.map ofByte), rest)) :
    ∃ used, '[' :: next = used ++ rest ∧ WritesBytes used data := by
  by_cases hempty : ∃ others, skipGap next = ']' :: others
  · obtain ⟨others, hnext⟩ := hempty
    rw [valueOf_empty hskip hnext] at h
    obtain ⟨hdata, rfl⟩ := Prod.mk.inj (Except.ok.inj h)
    obtain rfl := List.map_eq_nil_iff.mp (Json.arr.inj hdata).symm
    obtain ⟨gap, hgap, heq⟩ := exists_gap next
    refine ⟨'[' :: (gap ++ [']']), ?_, .empty hgap⟩
    rw [heq, hnext]
    simp
  · rw [valueOf_items hskip fun others hnext => hempty ⟨others, hnext⟩] at h
    obtain ⟨⟨items, after⟩, hitems, h⟩ := Step.ok_of_bind h
    obtain ⟨hdata, rfl⟩ := Prod.mk.inj (Except.ok.inj h)
    obtain rfl := Json.arr.inj hdata
    obtain ⟨used, rfl, hused⟩ := writesItems_of_itemsOf hitems
    exact ⟨'[' :: used, rfl, .items hused⟩

/-- A text is an array of bytes exactly if it is written as one. -/
theorem ofText_bytes_iff (h : IsTrimmed text) :
    ofText (String.ofList text) = .ok (.arr (data.map ofByte)) ↔ WritesBytes text data := by
  rw [ofText_eq_ok_iff, String.toList_ofList]
  constructor
  · rintro ⟨rest, hvalue, hrest⟩
    obtain ⟨next, hskip⟩ := first_of_valueOf hvalue
    obtain ⟨used, htext, hused⟩ := writesBytes_of_valueOf hskip hvalue
    rw [← hskip, skipGap_of_isTrimmed h] at htext
    obtain rfl : rest = [] := eq_nil_of_skipGap (htext ▸ h.last) hrest
    rwa [htext, List.append_nil]
  · intro hbytes
    have hfuel : data.length < 2 * text.length + 1 := by
      have := hbytes.length_le
      omega
    refine ⟨[], ?_, rfl⟩
    have hvalue := valueOf_of_writesBytes hbytes hfuel 126 []
    rwa [List.append_nil] at hvalue

end Bytes

section Strings

variable {literal : List Char} {found : String}

/-- A string in quotes. -/
def Quotes (literal : List Char) (found : String) : Prop :=
  ∃ spelling, literal = '"' :: (spelling ++ ['"']) ∧ Spells spelling found.toList ∧ NoControl spelling

theorem stringOf_eq_ok_iff {text rest : List Char} : stringOf text = .ok (found, rest) ↔
    ∃ spelling, text = spelling ++ '"' :: rest ∧ Spells spelling found.toList ∧ NoControl spelling := by
  constructor
  · intro h
    obtain ⟨s, t, hspells, hs, htext, hfound⟩ := spells_of_stringFrom h
    rw [List.reverse_nil, List.nil_append] at hfound
    exact ⟨s, htext, hfound ▸ hspells, hs⟩
  · rintro ⟨spelling, rfl, hspells, hs⟩
    have hfuel : found.toList.length < (spelling ++ '"' :: rest).length + 1 := by
      have := hspells.length_le
      rw [List.length_append]
      omega
    have hread := stringFrom_of_spells hspells hs hfuel [] rest
    rwa [List.reverse_nil, List.nil_append, String.ofList_toList] at hread

/-- A text that begins with a quote and does not end in white space is a string exactly if it is one in quotes. -/
theorem ofText_string_iff (h : ∀ c ∈ ('"' :: literal).getLast?, isBlank c = false) :
    ofText (String.ofList ('"' :: literal)) = .ok (.str found) ↔ Quotes ('"' :: literal) found := by
  rw [ofText_eq_ok_iff, String.toList_ofList, valueOf_quote (skipGap_cons rfl literal)]
  constructor
  · rintro ⟨rest, hvalue, hrest⟩
    obtain ⟨⟨read, after⟩, hread, hvalue⟩ := Step.ok_of_bind hvalue
    cases hvalue
    obtain ⟨spelling, rfl, hspells, hs⟩ := stringOf_eq_ok_iff.mp hread
    have hlast : ∀ c ∈ ('"' :: (spelling ++ ['"']) ++ rest).getLast?, isBlank c = false := by simpa using h
    obtain rfl := eq_nil_of_skipGap hlast hrest
    exact ⟨spelling, rfl, hspells, hs⟩
  · rintro ⟨spelling, heq, hspells, hs⟩
    refine ⟨[], ?_, rfl⟩
    rw [(List.cons.inj heq).2, stringOf_eq_ok_iff.mpr ⟨spelling, rfl, hspells, hs⟩]
    rfl

end Strings

end WireSchema.Json
