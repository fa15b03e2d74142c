import WireSchema.Proofs.Decimal.Integer
import WireSchema.Proofs.Json.Mentions

/-!
# Natural numbers of a JSON text

Only its decimal text is read as a natural number, as points and exponents lead
to doubles, and it is read so where nothing behind it goes on with the number.
How doubles are written is not looked at.
-/

namespace WireSchema.Json

set_option autoImplicit false

open Decimal

variable {text digits rest : List Char}

/-- What follows does not go on with a natural number. -/
def EndsNumber (rest : List Char) : Prop :=
  ∀ c ∈ rest.head?, c.isDigit = false ∧ c ≠ '.' ∧ c ≠ 'e' ∧ c ≠ 'E'

theorem digit?_eq (c : Char) : digit? c = if c.isDigit then some (c.toNat - '0'.toNat) else none :=
  digitValue?_eq c

theorem digitsOf_append (h : ∀ c ∈ digits, c.isDigit = true) (hrest : EndsNumber rest) :
    digitsOf (digits ++ rest) = (digits.map fun c => c.toNat - '0'.toNat, rest) := by
  induction digits with
  | nil =>
    cases rest with
    | nil => rfl
    | cons c rest => simp [digitsOf, digit?_eq, (hrest c rfl).1]
  | cons c digits ih =>
    rw [List.forall_mem_cons] at h
    simp [digitsOf, digit?_eq, h.1, ih h.2, toNat_zero]

theorem exists_of_digitsOf (text : List Char) : ∃ digits, text = digits ++ (digitsOf text).2
    ∧ (∀ c ∈ digits, c.isDigit = true) ∧ (digitsOf text).1 = digits.map fun c => c.toNat - '0'.toNat := by
  induction text with
  | nil => exact ⟨[], rfl, nofun, rfl⟩
  | cons c text ih =>
    rw [digitsOf, digit?_eq]
    by_cases hc : c.isDigit = true
    · obtain ⟨digits, htext, hdigits, hvalues⟩ := ih
      refine ⟨c :: digits, ?_, List.forall_mem_cons.mpr ⟨hc, hdigits⟩, ?_⟩
      · simpa [hc] using htext
      · simp [hc, hvalues, toNat_zero]
    · exact ⟨[], by simp [hc], nofun, by simp [hc]⟩

theorem digitsValue_map (digits : List Char) :
    digitsValue (digits.map fun c => c.toNat - '0'.toNat) = Nat.ofDigitChars 10 digits 0 := by
  rw [digitsValue, List.foldl_map, Nat.ofDigitChars_eq_foldl]

theorem digitsOf1_eq_ok_iff {values : List Nat} :
    digitsOf1 text = .ok (values, rest) ↔ digitsOf text = (values, rest) ∧ values ≠ [] := by
  constructor
  · intro h
    refine ⟨digitsOf_of_digitsOf1 h, ?_⟩
    rintro rfl
    unfold digitsOf1 at h
    split at h
    · cases h
    · cases h
    · next hsome =>
      exact hsome rest (Except.ok.inj h)
  · rintro ⟨hread, hne⟩
    unfold digitsOf1
    rw [hread]
    split
    · exact absurd (Prod.mk.inj hread).1.symm hne
    · next heq => exact absurd (Prod.mk.inj heq).1 hne
    · rfl

/-- The digits before the point are there, and a leading zero stands alone. -/
theorem wholeOf_eq_ok_iff {whole : List Nat} : wholeOf text = .ok (whole, rest)
    ↔ digitsOf text = (whole, rest) ∧ whole ≠ [] ∧ ∀ others, whole = 0 :: others → others = [] := by
  constructor
  · intro h
    obtain ⟨⟨values, after⟩, hdigits, h⟩ := Step.ok_of_bind h
    dsimp only at h
    split at h
    · cases h
    next hlone =>
    obtain ⟨rfl, rfl⟩ := Prod.mk.inj (Except.ok.inj h)
    obtain ⟨hread, hne⟩ := digitsOf1_eq_ok_iff.mp hdigits
    refine ⟨hread, hne, ?_⟩
    rintro (_ | ⟨d, others⟩) rfl
    · rfl
    · exact absurd rfl (hlone d others)
  · rintro ⟨hread, hne, hzero⟩
    rw [wholeOf, digitsOf1_eq_ok_iff.mpr ⟨hread, hne⟩]
    simp only [bind, Except.bind]
    split
    · next d others => cases hzero _ rfl
    · rfl

theorem wholeOf_toDigits (n : Nat) (hrest : EndsNumber rest) :
    ∃ whole, wholeOf (Nat.toDigits 10 n ++ rest) = .ok (whole, rest) ∧ digitsValue whole = n := by
  have hdigits : ∀ c ∈ Nat.toDigits 10 n, c.isDigit = true := fun c hc =>
    Nat.isDigit_of_mem_toDigits (by decide) (by decide) hc
  refine ⟨(Nat.toDigits 10 n).map fun c => c.toNat - '0'.toNat, wholeOf_eq_ok_iff.mpr ?_, ?_⟩
  · refine ⟨digitsOf_append hdigits hrest, ?_, fun others hothers => ?_⟩
    · simp [Nat.toDigits_ne_nil]
    · obtain ⟨c, front, htext, hc, rfl⟩ := List.map_eq_cons_iff.mp hothers
      have hlow := (bounds_of_isDigit (hdigits c (by simp [htext]))).1
      have heq : c = '0' := by
        apply Char.toNat_inj.mp
        omega
      rw [heq] at htext
      rw [toDigits_eq_zero_cons htext]
      rfl
  · rw [digitsValue_map, Nat.ofDigitChars_ten_toDigits]

theorem eq_toDigits_of_wholeOf {whole : List Nat} (h : wholeOf text = .ok (whole, rest)) :
    text = Nat.toDigits 10 (digitsValue whole) ++ rest := by
  obtain ⟨hread, hne, hzero⟩ := wholeOf_eq_ok_iff.mp h
  obtain ⟨digits, htext, hdigits, hvalues⟩ := exists_of_digitsOf text
  rw [hread] at htext hvalues
  subst hvalues
  cases digits with
  | nil => exact absurd rfl hne
  | cons c others =>
    rw [List.forall_mem_cons] at hdigits
    have hlone : c = '0' → others = [] := by
      rintro rfl
      exact List.map_eq_nil_iff.mp (hzero _ rfl)
    rw [digitsValue_map, toDigits_ofDigitChars hdigits.1 hdigits.2 hlone, htext]

theorem fractionOf_of_ends (hrest : EndsNumber rest) : fractionOf rest = .ok (none, rest) := by
  unfold fractionOf
  split
  · next after => exact absurd rfl (hrest '.' rfl).2.1
  · rfl

theorem exponentOf_of_ends (hrest : EndsNumber rest) : exponentOf rest = .ok (none, rest) := by
  unfold exponentOf
  dsimp only
  split
  · next after => exact absurd rfl (hrest 'e' rfl).2.2.1
  · next after => exact absurd rfl (hrest 'E' rfl).2.2.2
  · rfl

theorem eq_of_fractionOf (h : fractionOf text = .ok (none, rest)) : text = rest := by
  unfold fractionOf at h
  split at h
  · obtain ⟨_, -, h⟩ := Step.ok_of_bind h
    cases h
  · exact (Prod.mk.inj (Except.ok.inj h)).2

theorem eq_of_exponentOf (h : exponentOf text = .ok (none, rest)) : text = rest := by
  unfold exponentOf at h
  dsimp only at h
  split at h
  iterate 2
    · obtain ⟨_, -, h⟩ := Step.ok_of_bind h
      cases h
  · exact (Prod.mk.inj (Except.ok.inj h)).2

theorem numberOf_toDigits {n : Nat} (hn : n < twoTo 64) (hrest : EndsNumber rest) :
    numberOf false (Nat.toDigits 10 n ++ rest) = .ok (.int n, rest) := by
  obtain ⟨whole, hwhole, hvalue⟩ := wholeOf_toDigits n hrest
  have hparts : numberTextOf false (Nat.toDigits 10 n ++ rest) = .ok (⟨false, whole, none, none⟩, rest) := by
    simp only [numberTextOf, hwhole, bind, Except.bind, fractionOf_of_ends hrest, exponentOf_of_ends hrest]
    rfl
  have hnumber : NumberText.value ⟨false, whole, none, none⟩ = .ok (.int n) := by
    simp [NumberText.value, hvalue, hn]
  rw [numberOf, hparts]
  simp only [bind, Except.bind, hnumber]
  rfl

/-- A natural number has no sign, no point and no exponent. -/
theorem value_eq_natural {t : NumberText} {n : Nat} (h : t.value = .ok (.int n)) :
    t.negative = false ∧ t.fraction = none ∧ t.exponent = none ∧ digitsValue t.whole = n := by
  unfold NumberText.value at h
  dsimp only at h
  split at h
  · next hplain =>
    split at h
    · next hsign =>
      have hvalue : (digitsValue t.whole : Int) = n := Json.int.inj (Except.ok.inj h)
      exact ⟨hsign, Option.isNone_iff_eq_none.mp hplain.1, Option.isNone_iff_eq_none.mp hplain.2.1, by omega⟩
    split at h
    · cases h
    · next hlarge =>
      have hvalue : -(digitsValue t.whole : Int) = n := Json.int.inj (Except.ok.inj h)
      omega
  · split at h <;> cases h

theorem eq_toDigits_of_numberOf {negative : Bool} {n : Nat} (h : numberOf negative text = .ok (.int n, rest)) :
    negative = false ∧ text = Nat.toDigits 10 n ++ rest := by
  obtain ⟨⟨⟨_, whole, fraction, exponent⟩, after⟩, hparts, h⟩ := Step.ok_of_bind h
  obtain ⟨value, hvalue, h⟩ := Step.ok_of_bind h
  cases h
  obtain ⟨⟨_, afterWhole⟩, hwhole, hparts⟩ := Step.ok_of_bind hparts
  obtain ⟨⟨_, afterFraction⟩, hfraction, hparts⟩ := Step.ok_of_bind hparts
  obtain ⟨⟨_, afterExponent⟩, hexponent, hparts⟩ := Step.ok_of_bind hparts
  cases hparts
  obtain ⟨rfl, rfl, rfl, rfl⟩ := value_eq_natural hvalue
  rw [eq_of_exponentOf hexponent] at hfraction
  rw [eq_of_fractionOf hfraction] at hwhole
  exact ⟨rfl, eq_toDigits_of_wholeOf hwhole⟩

end WireSchema.Json
