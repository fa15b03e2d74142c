import WireSchema.Program.Constant
import WireSchema.Proofs.Decimal.Integer
import WireSchema.Proofs.Unicode.Trim

/-!
# Integers as constants

The text of an integer constant is the decimal text of a number, with
underscores anywhere in it, and the name of the type may stand behind it. The
value is that number, or there is none if the number is not one of the type.
Numbers of 256 bits are never read. Which other texts are read, with plus signs
and leading zeros, is not looked at.
-/

namespace WireSchema.Program

set_option autoImplicit false

open Schema Unicode Decimal

def unsignedTypes : List Scalar := [.u8, .u16, .u32, .u64, .u128]

def signedTypes : List Scalar := [.i8, .i16, .i32, .i64, .i128]

/-- The integer types of up to 128 bits. -/
def integerTypes : List Scalar := unsignedTypes ++ signedTypes

/-- The types whose names may be behind an integer, those of 256 bits among them. -/
def suffixTypes : List Scalar := integerTypes ++ [.u256, .i256]

theorem mem_suffixTypes {s : Scalar} (hs : s ∈ integerTypes) : s ∈ suffixTypes :=
  List.mem_append_left _ hs

/-- The integer that the bits of a type stand for. -/
def integerOf (s : Scalar) (bits : BitVec (8 * s.size)) : Int :=
  if s ∈ signedTypes then bits.toInt else bits.toNat

/-- The integer is one of the type. -/
def InRange (s : Scalar) (n : Int) : Prop :=
  if s ∈ signedTypes then -(Nat.pow 2 (8 * s.size - 1) : Int) ≤ n ∧ n < Nat.pow 2 (8 * s.size - 1)
  else 0 ≤ n ∧ n < Nat.pow 2 (8 * s.size)

section Suffix

variable {s other : Scalar} {digits ending text : List Char} {c : Char}

@[simp] theorem dropEnding_append (ending text : List Char) : dropEnding ending (text ++ ending) = text := by
  have hsuffix : ending.isSuffixOf (text ++ ending) = true := List.isSuffixOf_iff_suffix.mpr (List.suffix_append _ _)
  rw [dropEnding, if_pos hsuffix]
  simp

theorem dropEnding_eq_self (h : ¬ ending <:+ text) : dropEnding ending text = text := by
  rw [dropEnding, if_neg fun hsuffix => h (List.isSuffixOf_iff_suffix.mp hsuffix)]

/-- Every name of an integer type begins with a letter. -/
theorem exists_letter (hs : s ∈ suffixTypes) : ∃ c ∈ s.keyword.toList, c ≠ '_' ∧ isIntegerChar c = false := by
  have hall : ∀ s ∈ suffixTypes, s.keyword.toList.any (fun c => c ≠ '_' && !isIntegerChar c) = true := by
    decide +kernel
  obtain ⟨c, hc, hletter⟩ := List.any_eq_true.mp (hall s hs)
  exact ⟨c, hc, by simpa using hletter⟩

theorem not_isSuffix_keyword (hs : s ∈ suffixTypes) (hother : other ∈ suffixTypes) (hne : other ≠ s) :
    ¬ s.keyword.toList <:+ other.keyword.toList := by
  have hall : ∀ s ∈ suffixTypes, ∀ other ∈ suffixTypes, other ≠ s → ¬ s.keyword.toList <:+ other.keyword.toList := by
    decide +kernel
  exact hall s hs other hother hne

theorem isIntegerChar_of_mem_toString {n : Int} (hc : c ∈ (toString n).toList) : isIntegerChar c = true := by
  have hdigit : ∀ {k : Nat}, c ∈ Nat.toDigits 10 k → isIntegerChar c = true := fun h => by
    simp [isIntegerChar, Nat.isDigit_of_mem_toDigits (by decide) (by decide) h]
  cases n with
  | ofNat n =>
    rw [toList_toString_ofNat] at hc
    exact hdigit hc
  | negSucc n =>
    rw [toList_toString_negSucc] at hc
    rcases List.mem_cons.mp hc with rfl | hc
    · decide
    · exact hdigit hc

end Suffix

section Written

variable {s : Scalar} {n : Int} {digits : List Char}

/-- The text has the decimal digits of the integer, and underscores anywhere between and around them. -/
def WritesInteger (n : Int) (digits : List Char) : Prop :=
  digits.filter (· ≠ '_') = (toString n).toList

theorem WritesInteger.notMem (h : WritesInteger n digits) {c : Char} (hc : c ≠ '_')
    (hletter : isIntegerChar c = false) : c ∉ digits := by
  intro hmem
  have hkept : c ∈ (toString n).toList := by
    rw [← h]
    exact List.mem_filter.mpr ⟨hmem, by simpa using hc⟩
  rw [isIntegerChar_of_mem_toString hkept] at hletter
  cases hletter

theorem bareNumber_plain (hs : s ∈ integerTypes) (h : WritesInteger n digits) :
    bareNumber s digits = (toString n).toList := by
  obtain ⟨c, hc, hne, hletter⟩ := exists_letter (mem_suffixTypes hs)
  have hsuffix : ¬ s.keyword.toList <:+ digits := fun hsuffix => h.notMem hne hletter (hsuffix.subset hc)
  rw [bareNumber, dropEnding_eq_self hsuffix, h]

theorem bareNumber_suffixed (h : WritesInteger n digits) :
    bareNumber s (digits ++ s.keyword.toList) = (toString n).toList := by
  rw [bareNumber, dropEnding_append, h]

/-- The name of another type is not dropped, and its letters are in the way. -/
theorem exists_mem_bareNumber {other : Scalar} (text : List Char) (hs : s ∈ suffixTypes)
    (hother : other ∈ suffixTypes) (hne : other ≠ s) :
    ∃ c ∈ bareNumber s (text ++ other.keyword.toList), isIntegerChar c = false := by
  have hkept : ¬ s.keyword.toList <:+ text ++ other.keyword.toList := by
    intro hsuffix
    rcases List.suffix_or_suffix_of_suffix hsuffix (List.suffix_append text _) with hshort | hlong
    · exact not_isSuffix_keyword hs hother hne hshort
    · exact not_isSuffix_keyword hother hs hne.symm hlong
  obtain ⟨c, hc, hscore, hletter⟩ := exists_letter hother
  refine ⟨c, ?_, hletter⟩
  rw [bareNumber, dropEnding_eq_self hkept]
  apply List.mem_filter.mpr
  exact ⟨List.mem_append_right text hc, by simpa using hscore⟩

end Written

section Values

variable {s : Scalar} {raw : List Char} {n : Int}

theorem scalar?_of_unsigned (hs : s ∈ unsignedTypes) : scalar? s raw
    = (natural? (Nat.pow 2 (8 * s.size)) (bareNumber s raw)).map (Value.ofNat s) := by
  simp only [unsignedTypes, List.mem_cons, List.not_mem_nil, or_false] at hs
  rcases hs with rfl | rfl | rfl | rfl | rfl <;> rfl

theorem scalar?_of_signed (hs : s ∈ signedTypes) : scalar? s raw
    = (integer? (Nat.pow 2 (8 * s.size - 1)) (bareNumber s raw)).map (Value.ofInt s) := by
  simp only [signedTypes, List.mem_cons, List.not_mem_nil, or_false] at hs
  rcases hs with rfl | rfl | rfl | rfl | rfl <;> rfl

theorem notMem_signedTypes (hs : s ∈ unsignedTypes) : s ∉ signedTypes := by
  simp only [unsignedTypes, List.mem_cons, List.not_mem_nil, or_false] at hs
  rcases hs with rfl | rfl | rfl | rfl | rfl <;> simp [signedTypes]

theorem scalar?_eq_some (hs : s ∈ integerTypes) (hbare : bareNumber s raw = (toString n).toList) (h : InRange s n) :
    ∃ bits, scalar? s raw = some (.scalar s bits) ∧ integerOf s bits = n := by
  rcases List.mem_append.mp hs with hs | hs
  · rw [InRange, if_neg (notMem_signedTypes hs)] at h
    refine ⟨BitVec.ofNat _ n.toNat, ?_, ?_⟩
    · rw [scalar?_of_unsigned hs, hbare, natural?_toString, if_pos h]
      rfl
    · have hlt : n.toNat < 2 ^ (8 * s.size) := (Int.toNat_lt h.1).mpr h.2
      rw [integerOf, if_neg (notMem_signedTypes hs), BitVec.toNat_ofNat, Nat.mod_eq_of_lt hlt]
      exact Int.toNat_of_nonneg h.1
  · rw [InRange, if_pos hs] at h
    refine ⟨BitVec.ofInt _ n, ?_, ?_⟩
    · rw [scalar?_of_signed hs, hbare, integer?_toString, if_pos h]
      rfl
    · have hsize : 0 < 8 * s.size := by cases s <;> decide
      rw [integerOf, if_pos hs]
      apply BitVec.toInt_ofInt_eq_self hsize
      · exact_mod_cast h.1
      · exact_mod_cast h.2

theorem scalar?_eq_none (hs : s ∈ integerTypes) (hbare : bareNumber s raw = (toString n).toList) (h : ¬ InRange s n) :
    scalar? s raw = none := by
  rcases List.mem_append.mp hs with hs | hs
  · rw [InRange, if_neg (notMem_signedTypes hs)] at h
    rw [scalar?_of_unsigned hs, hbare, natural?_toString, if_neg h]
    rfl
  · rw [InRange, if_pos hs] at h
    rw [scalar?_of_signed hs, hbare, integer?_toString, if_neg h]
    rfl

theorem scalar?_eq_none_of_mem {c : Char} (hs : s ∈ integerTypes) (hc : c ∈ bareNumber s raw)
    (hletter : isIntegerChar c = false) : scalar? s raw = none := by
  rcases List.mem_append.mp hs with hs | hs
  · rw [scalar?_of_unsigned hs, natural?_eq_none hc hletter]
    rfl
  · rw [scalar?_of_signed hs, integer?_eq_none hc hletter]
    rfl

end Values

section Text

variable {c : Char}

theorem isBlank_of_isIntegerChar (h : isIntegerChar c = true) : isBlank c = false := by
  simp only [isIntegerChar, Bool.or_eq_true, decide_eq_true_eq] at h
  rcases h with (h | rfl) | rfl
  · have hlow : 48 ≤ c.toNat := (Char.isDigit_iff_toNat.mp h).1
    have hhigh : c.toNat ≤ 57 := (Char.isDigit_iff_toNat.mp h).2
    simp [isBlank, inRanges, blankRanges]
    omega
  · rfl
  · rfl

theorem isBlank_of_mem_keyword {s : Scalar} (hs : s ∈ suffixTypes) (hc : c ∈ s.keyword.toList) :
    isBlank c = false := by
  have hall : ∀ s ∈ suffixTypes, s.keyword.toList.all (fun c => !isBlank c) = true := by decide +kernel
  simpa using List.all_eq_true.mp (hall s hs) c hc

theorem WritesInteger.isBlank {n : Int} {digits : List Char} (h : WritesInteger n digits) (hc : c ∈ digits) :
    isBlank c = false := by
  by_cases hscore : c = '_'
  · rw [hscore]
    rfl
  · apply isBlank_of_isIntegerChar
    apply isIntegerChar_of_mem_toString
    rw [← h]
    exact List.mem_filter.mpr ⟨hc, by simpa using hscore⟩

end Text

/-- The text of an integer, with the name of a type behind it or without. -/
def written (digits : List Char) (suffix : Option Scalar) : List Char :=
  digits ++ suffix.elim [] (·.keyword.toList)

section Suffixed

variable {s : Scalar} {n : Int} {digits : List Char} {suffix : Option Scalar}

theorem isTrimmed_written (hn : WritesInteger n digits) (hsuffix : ∀ other ∈ suffix, other ∈ suffixTypes) :
    IsTrimmed (written digits suffix) := by
  apply IsTrimmed.of_forall
  intro c hc
  rcases List.mem_append.mp hc with hc | hc
  · exact hn.isBlank hc
  · cases suffix with
    | none => cases hc
    | some other => exact isBlank_of_mem_keyword (hsuffix other rfl) hc

theorem bareNumber_written (hs : s ∈ integerTypes) (hn : WritesInteger n digits)
    (hown : suffix = none ∨ suffix = some s) : bareNumber s (written digits suffix) = (toString n).toList := by
  rcases hown with rfl | rfl
  · rw [written, Option.elim_none, List.append_nil, bareNumber_plain hs hn]
  · rw [written, Option.elim_some, bareNumber_suffixed hn]

theorem scalar?_foreign (hs : s ∈ integerTypes) (hsuffix : ∀ other ∈ suffix, other ∈ suffixTypes)
    (hforeign : ∃ other, suffix = some other ∧ other ≠ s) : scalar? s (written digits suffix) = none := by
  obtain ⟨other, rfl, hne⟩ := hforeign
  obtain ⟨c, hc, hletter⟩ := exists_mem_bareNumber digits (mem_suffixTypes hs) (hsuffix other rfl) hne
  exact scalar?_eq_none_of_mem hs hc hletter

theorem own_of_not_foreign (h : ¬ ∃ other, suffix = some other ∧ other ≠ s) : suffix = none ∨ suffix = some s := by
  cases suffix with
  | none => exact .inl rfl
  | some other =>
    have heq : other = s := not_not.mp fun hne => h ⟨other, rfl, hne⟩
    exact .inr (congrArg some heq)

end Suffixed

theorem constantValue_of_scalar {c : Constant} {s : Scalar} (hty : c.ty = .prim (.scalar s)) :
    constantValue c = match scalar? s (trim c.value.toList) with
      | some value => .ok value
      | none => .error (.invalidConstant c.name c.value) := by
  rw [constantValue, hty]
  rfl

/-- An integer of a type is read from its digits, with underscores anywhere in them, with or without the name of the
type behind them, and any other integer and any other name is refused. -/
theorem constantValue_integer {c : Constant} {s : Scalar} (hs : s ∈ integerTypes) (hty : c.ty = .prim (.scalar s))
    {n : Int} {digits before after : List Char} (hn : WritesInteger n digits)
    {suffix : Option Scalar} (hsuffix : ∀ other ∈ suffix, other ∈ suffixTypes)
    (hbefore : ∀ ch ∈ before, isBlank ch = true) (hafter : ∀ ch ∈ after, isBlank ch = true)
    (hvalue : c.value.toList = before ++ (written digits suffix ++ after)) :
    (InRange s n → suffix = none ∨ suffix = some s →
        ∃ bits, constantValue c = .ok (.scalar s bits) ∧ integerOf s bits = n)
      ∧ (¬ InRange s n ∨ (∃ other, suffix = some other ∧ other ≠ s) →
        constantValue c = .error (.invalidConstant c.name c.value)) := by
  have hraw : trim c.value.toList = written digits suffix := by
    rw [hvalue]
    exact trim_append hbefore hafter (isTrimmed_written hn hsuffix)
  rw [constantValue_of_scalar hty, hraw]
  refine ⟨fun hrange hown => ?_, fun hrefused => ?_⟩
  · obtain ⟨bits, hread, hbits⟩ := scalar?_eq_some hs (bareNumber_written hs hn hown) hrange
    exact ⟨bits, by rw [hread], hbits⟩
  · have hnone : scalar? s (written digits suffix) = none := by
      by_cases hforeign : ∃ other, suffix = some other ∧ other ≠ s
      · exact scalar?_foreign hs hsuffix hforeign
      · have hbare := bareNumber_written hs hn (own_of_not_foreign hforeign)
        exact scalar?_eq_none hs hbare (hrefused.resolve_right hforeign)
    rw [hnone]

/-- The least number of sixteen bits, between white space and with everything that may stand in its text. -/
theorem constantValue_integer_least :
    let c : Constant := ⟨"LEAST", [], .prim (.scalar .i16), "\u00a0-3_2_768i16\n"⟩
    WritesInteger (-32768) "-3_2_768".toList ∧ InRange .i16 (-32768)
      ∧ ∃ bits, constantValue c = .ok (.scalar .i16 bits) ∧ integerOf .i16 bits = -32768 := by
  intro c
  have hs : Scalar.i16 ∈ integerTypes := by simp [integerTypes, signedTypes]
  have hn : WritesInteger (-32768) "-3_2_768".toList := by
    unfold WritesInteger
    decide +kernel
  have hrange : InRange .i16 (-32768) := by
    unfold InRange
    decide +kernel
  have hbefore : ∀ ch ∈ ['\u00a0'], isBlank ch = true := List.all_eq_true.mp (by decide)
  have hafter : ∀ ch ∈ ['\n'], isBlank ch = true := List.all_eq_true.mp (by decide)
  have hsuffix : ∀ other ∈ some Scalar.i16, other ∈ suffixTypes := by
    rintro other ⟨rfl⟩
    exact mem_suffixTypes hs
  have hvalue : c.value.toList = ['\u00a0'] ++ (written "-3_2_768".toList (some .i16) ++ ['\n']) := by
    decide +kernel
  have hread := constantValue_integer hs rfl hn hsuffix hbefore hafter hvalue
  exact ⟨hn, hrange, hread.1 hrange (.inr rfl)⟩

end WireSchema.Program
