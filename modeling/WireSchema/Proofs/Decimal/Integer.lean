import WireSchema.Decimal.Integer

/-!
# Integers read from their digits

The decimal text of an integer is read as that integer, if it is in the range
asked for. A text with a character that is neither digit nor sign is not read.
Plus signs and leading zeros, which are read too, are not looked at. Digits
without a leading zero are the decimal text of their number.
-/

namespace WireSchema.Decimal

set_option autoImplicit false

/-- A character that an integer can be written with. -/
def isIntegerChar (c : Char) : Bool :=
  c.isDigit || c = '+' || c = '-'

variable {c : Char} {text : List Char}

section Digits

variable {digits : List Char}

theorem toNat_zero : '0'.toNat = 48 := rfl

theorem bounds_of_isDigit (h : c.isDigit = true) : '0'.toNat ≤ c.toNat ∧ c.toNat - '0'.toNat < 10 := by
  obtain ⟨hlow, hhigh⟩ := Char.isDigit_iff_toNat.mp h
  have hnine : '9'.toNat = 57 := rfl
  rw [toNat_zero] at hlow ⊢
  omega

theorem toDigits_digit (h : c.isDigit = true) : Nat.toDigits 10 (c.toNat - '0'.toNat) = [c] := by
  obtain ⟨hlow, hlt⟩ := bounds_of_isDigit h
  rw [Nat.toDigits_of_lt_base hlt]
  congr 1
  apply Char.toNat_inj.mp
  rw [Nat.toNat_digitChar_of_lt_ten hlt]
  rw [toNat_zero] at hlow ⊢
  omega

theorem toDigits_append {n : Nat} (hn : 0 < n) (h : ∀ c ∈ digits, c.isDigit = true) :
    Nat.toDigits 10 n ++ digits = Nat.toDigits 10 (Nat.ofDigitChars 10 digits n) := by
  induction digits generalizing n with
  | nil => simp
  | cons c rest ih =>
    rw [List.forall_mem_cons] at h
    have hlt := (bounds_of_isDigit h.1).2
    calc
      Nat.toDigits 10 n ++ c :: rest = Nat.toDigits 10 n ++ Nat.toDigits 10 (c.toNat - '0'.toNat) ++ rest := by
        rw [toDigits_digit h.1, List.append_assoc, List.singleton_append]
      _ = Nat.toDigits 10 (10 * n + (c.toNat - '0'.toNat)) ++ rest := by
        rw [Nat.toDigits_append_toDigits (by decide) hn hlt]
      _ = Nat.toDigits 10 (Nat.ofDigitChars 10 (c :: rest) n) := by
        rw [Nat.ofDigitChars_cons, ih (by omega) h.2]

theorem toDigits_ofDigitChars (hc : c.isDigit = true) (h : ∀ d ∈ digits, d.isDigit = true)
    (hzero : c = '0' → digits = []) : Nat.toDigits 10 (Nat.ofDigitChars 10 (c :: digits) 0) = c :: digits := by
  rw [Nat.ofDigitChars_cons, Nat.mul_zero, Nat.zero_add]
  by_cases hc0 : c = '0'
  · rw [hzero hc0, Nat.ofDigitChars_nil]
    exact toDigits_digit hc
  · have hne : c.toNat ≠ '0'.toNat := fun heq => hc0 (Char.toNat_inj.mp heq)
    have hpos : 0 < c.toNat - '0'.toNat := by
      have hlow := (bounds_of_isDigit hc).1
      omega
    rw [← toDigits_append hpos h, toDigits_digit hc, List.singleton_append]

/-- Only the number zero begins with a zero. -/
theorem toDigits_eq_zero_cons {n : Nat} (h : Nat.toDigits 10 n = '0' :: digits) : digits = [] := by
  induction n using Nat.strongRecOn generalizing digits with
  | ind n ih =>
    by_cases hlt : n < 10
    · rw [Nat.toDigits_of_lt_base hlt] at h
      exact (List.cons.inj h).2.symm
    · rw [Nat.toDigits_of_base_le (by decide) (Nat.le_of_not_lt hlt)] at h
      obtain ⟨c, front, hfront⟩ := List.exists_cons_of_ne_nil (Nat.toDigits_ne_nil (b := 10) (n := n / 10))
      rw [hfront, List.cons_append] at h
      obtain ⟨rfl, -⟩ := List.cons.inj h
      rw [ih (n / 10) (by omega) hfront] at hfront
      have hvalue : n / 10 = 0 := by
        rw [← Nat.ofDigitChars_ten_toDigits (n := n / 10), hfront]
        rfl
      omega

end Digits

theorem digitValue?_eq (c : Char) : digitValue? c = if c.isDigit then some (c.toNat - 48) else none := by
  have hdigit : c.isDigit = true ↔ '0' ≤ c ∧ c ≤ '9' := by
    rw [Char.isDigit, Bool.and_eq_true, decide_eq_true_eq, decide_eq_true_eq]
    rfl
  rw [digitValue?]
  by_cases h : '0' ≤ c ∧ c ≤ '9'
  · rw [if_pos h, if_pos (hdigit.mpr h)]
  · rw [if_neg h, if_neg fun hc => h (hdigit.mp hc)]

theorem appendDigits?_eq (h : ∀ c ∈ text, c.isDigit = true) (n : Nat) :
    appendDigits? n text = some (Nat.ofDigitChars 10 text n) := by
  induction text generalizing n with
  | nil => rfl
  | cons c rest ih =>
    rw [List.forall_mem_cons] at h
    simp only [appendDigits?, digitValue?_eq, h.1, if_true, Nat.ofDigitChars_cons]
    exact ih h.2 _

theorem appendDigits?_eq_none (hc : c ∈ text) (h : c.isDigit = false) (n : Nat) : appendDigits? n text = none := by
  induction text generalizing n with
  | nil => cases hc
  | cons d rest ih =>
    simp only [appendDigits?, digitValue?_eq]
    rcases List.mem_cons.mp hc with rfl | hc
    · simp [h]
    · split
      · exact ih hc _
      · rfl

theorem digits?_toDigits (n : Nat) : digits? (Nat.toDigits 10 n) = some n := by
  have hdigits : ∀ c ∈ Nat.toDigits 10 n, c.isDigit = true := fun c hc =>
    Nat.isDigit_of_mem_toDigits (by decide) (by decide) hc
  have hread := appendDigits?_eq hdigits 0
  rw [Nat.ofDigitChars_ten_toDigits] at hread
  cases htext : Nat.toDigits 10 n with
  | nil => exact absurd htext Nat.toDigits_ne_nil
  | cons c rest =>
    rw [digits?, ← htext, hread]
    nofun

theorem digits?_eq_none (hc : c ∈ text) (h : c.isDigit = false) : digits? text = none := by
  cases text with
  | nil => cases hc
  | cons d rest => exact appendDigits?_eq_none hc h 0

theorem exists_toDigits_eq_cons (n : Nat) : ∃ c rest, Nat.toDigits 10 n = c :: rest ∧ c ≠ '+' ∧ c ≠ '-' := by
  obtain ⟨c, rest, htext⟩ := List.exists_cons_of_ne_nil (Nat.toDigits_ne_nil (b := 10) (n := n))
  have hc : c.isDigit = true := by
    have hmem : c ∈ Nat.toDigits 10 n := by simp [htext]
    exact Nat.isDigit_of_mem_toDigits (by decide) (by decide) hmem
  refine ⟨c, rest, htext, ?_, ?_⟩ <;> rintro rfl <;> cases hc

theorem toList_toString_ofNat (n : Nat) : (toString (Int.ofNat n)).toList = Nat.toDigits 10 n := by
  show (Nat.repr n).toList = _
  rw [Nat.toList_repr]

theorem toList_toString_negSucc (n : Nat) : (toString (Int.negSucc n)).toList = '-' :: Nat.toDigits 10 (n + 1) := by
  show ("-" ++ Nat.repr (n + 1)).toList = _
  rw [String.toList_append, Nat.toList_repr]
  rfl

/-- An integer is read from its decimal text if it is natural and below the bound. -/
theorem natural?_toString (bound : Nat) (n : Int) :
    natural? bound (toString n).toList = if 0 ≤ n ∧ n < bound then some n.toNat else none := by
  cases n with
  | ofNat n =>
    obtain ⟨c, rest, htext, hplus, -⟩ := exists_toDigits_eq_cons n
    have hread := digits?_toDigits n
    rw [toList_toString_ofNat]
    rw [htext] at hread ⊢
    simp [natural?, hplus, hread]
  | negSucc n =>
    rw [toList_toString_negSucc]
    have hnone : digits? ('-' :: Nat.toDigits 10 (n + 1)) = none := digits?_eq_none List.mem_cons_self (by decide)
    simp [natural?, hnone]

/-- An integer is read from its decimal text if it is in the range. -/
theorem integer?_toString (bound : Nat) (n : Int) :
    integer? bound (toString n).toList = if -(bound : Int) ≤ n ∧ n < bound then some n else none := by
  cases n with
  | ofNat n =>
    obtain ⟨c, rest, htext, hplus, hminus⟩ := exists_toDigits_eq_cons n
    have hread := digits?_toDigits n
    rw [toList_toString_ofNat]
    rw [htext] at hread ⊢
    simp [integer?, hplus, hminus, hread]
  | negSucc n =>
    rw [toList_toString_negSucc]
    simp [integer?, digits?_toDigits, Int.negSucc_eq]

theorem natural?_eq_none (hc : c ∈ text) (h : isIntegerChar c = false) (bound : Nat) : natural? bound text = none := by
  simp only [isIntegerChar, Bool.or_eq_false_iff, decide_eq_false_iff_not] at h
  obtain ⟨⟨hdigit, hplus⟩, -⟩ := h
  unfold natural?
  split
  · next rest =>
    rw [digits?_eq_none ((List.mem_cons.mp hc).resolve_left hplus) hdigit]
    rfl
  · rw [digits?_eq_none hc hdigit]
    rfl

theorem integer?_eq_none (hc : c ∈ text) (h : isIntegerChar c = false) (bound : Nat) : integer? bound text = none := by
  simp only [isIntegerChar, Bool.or_eq_false_iff, decide_eq_false_iff_not] at h
  obtain ⟨⟨hdigit, hplus⟩, hminus⟩ := h
  unfold integer?
  split
  · next rest =>
    rw [digits?_eq_none ((List.mem_cons.mp hc).resolve_left hminus) hdigit]
    rfl
  · next rest =>
    rw [digits?_eq_none ((List.mem_cons.mp hc).resolve_left hplus) hdigit]
    rfl
  · rw [digits?_eq_none hc hdigit]
    rfl

end WireSchema.Decimal
