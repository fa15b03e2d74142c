import WireSchema.Json.Reader
import WireSchema.Proofs.Step
import WireSchema.Unicode.Ranges

/-!
# Strings of a JSON text

What stands between two quotes spells a text: most characters stand for
themselves, and a backslash begins an escape. A string is read from what spells
it, if no control character is among that, and from nothing else. A text has
many spellings.
-/

namespace WireSchema.Json

set_option autoImplicit false

open Unicode (isBlank)

/-- What stands between the quotes of a string, and the characters that it stands for. -/
inductive Spells : List Char → List Char → Prop where
  | nil : Spells [] []
  | plain {c : Char} {s t : List Char} : c ≠ '"' → c ≠ '\\' → Spells s t → Spells (c :: s) (c :: t)
  | short {e c : Char} {s t : List Char} : shortEscape? e = some c → Spells s t → Spells ('\\' :: e :: s) (c :: t)
  | unit {c : Char} {digits s t : List Char} : unicodeEscapeOf digits = .ok (c, s) → Spells s t →
      Spells ('\\' :: 'u' :: digits) (c :: t)

/-- Every quote has a backslash before it that is not itself behind one, and no backslash is before white space. -/
inductive Escaped : List Char → Prop where
  | nil : Escaped []
  | plain {c : Char} {s : List Char} : c ≠ '"' → c ≠ '\\' → Escaped s → Escaped (c :: s)
  | pair {e : Char} {s : List Char} : isBlank e = false → Escaped s → Escaped ('\\' :: e :: s)

/-- The digits of an escape contain nothing that would end a string, and what follows them is as it was. -/
structure Digits {α : Type} (read : List Char → Except Fault (α × List Char)) (a : α) (text rest digits : List Char) :
    Prop where
  front : text = digits ++ rest
  escaped : ∀ {s}, Escaped s → Escaped (digits ++ s)
  read_append : ∀ other, read (digits ++ other) = .ok (a, other)
  visible : ∀ c ∈ digits, 32 ≤ c.toNat
  long : 4 ≤ digits.length

variable {text rest : List Char}

theorem Escaped.hex {c : Char} {s : List Char} {n : Nat} (h : hexValue? c = some n) (hs : Escaped s) :
    Escaped (c :: s) := by
  refine .plain ?_ ?_ hs <;> rintro rfl <;> cases h

theorem le_of_hexValue? {c : Char} {n : Nat} (h : hexValue? c = some n) : 32 ≤ c.toNat := by
  have hle : ∀ {low : Char}, 32 ≤ low.toNat → low ≤ c → 32 ≤ c.toNat := fun hlow hc => Nat.le_trans hlow hc
  unfold hexValue? at h
  split at h
  · next hc => exact hle (by decide) hc.1
  split at h
  · next hc => exact hle (by decide) hc.1
  split at h
  · next hc => exact hle (by decide) hc.1
  · cases h

theorem codeUnitOf_digits {n : Nat} (h : codeUnitOf text = .ok (n, rest)) :
    ∃ digits, Digits codeUnitOf n text rest digits := by
  unfold codeUnitOf at h
  split at h
  · next a b c d others =>
    split at h
    · next ha hb hc hd =>
      cases h
      refine ⟨[a, b, c, d], rfl, fun hs => ?_, fun other => ?_, ?_, Nat.le_refl 4⟩
      · exact .hex ha (.hex hb (.hex hc (.hex hd hs)))
      · simp [codeUnitOf, ha, hb, hc, hd]
      · simp [le_of_hexValue? ha, le_of_hexValue? hb, le_of_hexValue? hc, le_of_hexValue? hd]
    · cases h
  · split at h <;> cases h

theorem unicodeEscapeOf_digits {c : Char} (h : unicodeEscapeOf text = .ok (c, rest)) :
    ∃ digits, Digits unicodeEscapeOf c text rest digits := by
  obtain ⟨⟨unit, after⟩, hunit, h⟩ := Step.ok_of_bind h
  obtain ⟨digits, hdigits⟩ := codeUnitOf_digits hunit
  dsimp only at h
  split at h
  · next hone =>
    cases h
    refine ⟨digits, hdigits.front, hdigits.escaped, fun other => ?_, hdigits.visible, hdigits.long⟩
    rw [unicodeEscapeOf, hdigits.read_append]
    exact if_pos hone
  split at h
  · cases h
  next hone htwo =>
  split at h
  · cases h
  · cases h
  · next low =>
    obtain ⟨⟨unit', after'⟩, hunit', h⟩ := Step.ok_of_bind h
    obtain ⟨digits', hdigits'⟩ := codeUnitOf_digits hunit'
    dsimp only at h
    split at h
    · cases h
    next hlow =>
    obtain ⟨rfl, rfl⟩ := Prod.mk.inj (Except.ok.inj h)
    refine ⟨digits ++ '\\' :: 'u' :: digits', ?_, fun hs => ?_, fun other => ?_, ?_, ?_⟩
    · rw [hdigits.front, hdigits'.front]
      simp
    · rw [List.append_assoc]
      exact hdigits.escaped (.pair (by decide) (hdigits'.escaped hs))
    · rw [unicodeEscapeOf, List.append_assoc, hdigits.read_append]
      simp only [bind, Except.bind, if_neg hone, if_neg htwo, List.cons_append, hdigits'.read_append, if_neg hlow]
      rfl
    · intro c hc
      rcases List.mem_append.mp hc with hc | hc
      · exact hdigits.visible c hc
      rcases List.mem_cons.mp hc with rfl | hc
      · decide
      rcases List.mem_cons.mp hc with rfl | hc
      · decide
      · exact hdigits'.visible c hc
    · rw [List.length_append]
      exact Nat.le_add_right_of_le hdigits.long
  · cases h

section ShortEscapes

variable {e c : Char}

/-- The letters behind a backslash that stand for one character, with these characters. -/
def shortEscapes : List (Char × Char) :=
  [('"', '"'), ('\\', '\\'), ('/', '/'), ('b', Char.ofNat 8), ('f', Char.ofNat 12), ('n', '\n'), ('r', '\r'),
    ('t', '\t')]

theorem mem_shortEscapes (h : shortEscape? e = some c) : (e, c) ∈ shortEscapes := by
  unfold shortEscape? at h
  split at h
  · next he =>
    cases h
    rcases he with rfl | rfl | rfl <;> decide
  iterate 5
    split at h
    · next he =>
      cases h
      rw [he]
      decide
  cases h

theorem of_shortEscape? {P : Char → Char → Bool} (hall : shortEscapes.all (fun pair => P pair.1 pair.2) = true)
    (h : shortEscape? e = some c) : P e c = true :=
  List.all_eq_true.mp hall _ (mem_shortEscapes h)

theorem isBlank_eq_false_of_shortEscape? (h : shortEscape? e = some c) : isBlank e = false := by
  simpa using of_shortEscape? (P := fun e _ => !isBlank e) (by decide) h

theorem le_of_shortEscape? (h : shortEscape? e = some c) : 32 ≤ e.toNat :=
  of_decide_eq_true (of_shortEscape? (P := fun e _ => decide (32 ≤ e.toNat)) (by decide) h)

theorem utf8Size_of_shortEscape? (h : shortEscape? e = some c) : c.utf8Size = 1 :=
  of_decide_eq_true (of_shortEscape? (P := fun _ c => decide (c.utf8Size = 1)) (by decide) h)

theorem ne_u_of_shortEscape? (h : shortEscape? e = some c) : e ≠ 'u' := by
  rintro rfl
  cases h

end ShortEscapes

theorem Spells.escaped {s t : List Char} (h : Spells s t) : Escaped s := by
  induction h with
  | nil => exact .nil
  | plain hquote hslash _ ih => exact .plain hquote hslash ih
  | short hshort _ ih => exact .pair (isBlank_eq_false_of_shortEscape? hshort) ih
  | unit hunit _ ih =>
    obtain ⟨digits, hdigits⟩ := unicodeEscapeOf_digits hunit
    rw [hdigits.front]
    exact .pair (by decide) (hdigits.escaped ih)

/-- Where no escape is used, a string is spelled as it is. -/
theorem Spells.eq_of_notMem {s t : List Char} (h : Spells s t) (hs : '\\' ∉ s) : s = t := by
  induction h with
  | nil => rfl
  | plain _ _ _ ih => rw [ih fun hmem => hs (List.mem_cons_of_mem _ hmem)]
  | short | unit => exact absurd List.mem_cons_self hs

theorem Spells.refl {s : List Char} (hquote : '"' ∉ s) (hslash : '\\' ∉ s) : Spells s s := by
  induction s with
  | nil => exact .nil
  | cons c s ih =>
    rw [List.mem_cons, not_or] at hquote hslash
    exact .plain (Ne.symm hquote.1) (Ne.symm hslash.1) (ih hquote.2 hslash.2)

/-- A control character has to be escaped. -/
def NoControl (spelling : List Char) : Prop :=
  ∀ c ∈ spelling, 32 ≤ c.toNat

theorem spells_of_stringFrom {fuel : Nat} {read : List Char} {found : String}
    (h : stringFrom fuel read text = .ok (found, rest)) :
    ∃ s t, Spells s t ∧ NoControl s ∧ text = s ++ '"' :: rest ∧ found.toList = read.reverse ++ t := by
  fun_induction stringFrom fuel read text with
  | case1 => cases h
  | case2 => cases h
  | case3 fuel read after =>
    obtain ⟨rfl, rfl⟩ := Prod.mk.inj (Except.ok.inj h)
    exact ⟨[], [], .nil, nofun, rfl, by simp⟩
  | case4 => cases h
  | case5 read fuel rest' hquote ih =>
    obtain ⟨⟨c, after⟩, hunit, h⟩ := Step.ok_of_bind h
    obtain ⟨digits, hdigits⟩ := unicodeEscapeOf_digits hunit
    obtain ⟨s, t, hspells, hs, htext, hfound⟩ := ih c after h
    refine ⟨'\\' :: 'u' :: (digits ++ s), c :: t, .unit (hdigits.read_append s) hspells, ?_, ?_, by simpa using hfound⟩
    · have hrest := List.forall_mem_append.mpr ⟨hdigits.visible, hs⟩
      exact List.forall_mem_cons.mpr ⟨by decide, List.forall_mem_cons.mpr ⟨by decide, hrest⟩⟩
    · rw [hdigits.front, htext]
      simp
  | case6 read fuel e rest' _ c hshort _ ih =>
    obtain ⟨s, t, hspells, hs, htext, hfound⟩ := ih h
    refine ⟨'\\' :: e :: s, c :: t, .short hshort hspells, ?_, by rw [htext]; simp, by simpa using hfound⟩
    exact List.forall_mem_cons.mpr ⟨by decide, List.forall_mem_cons.mpr ⟨le_of_shortEscape? hshort, hs⟩⟩
  | case7 => cases h
  | case8 => cases h
  | case9 read fuel c rest' hquote hslash hcontrol ih =>
    obtain ⟨s, t, hspells, hs, htext, hfound⟩ := ih h
    refine ⟨c :: s, c :: t, .plain hquote hslash hspells, ?_, by rw [htext]; simp, by simpa using hfound⟩
    exact List.forall_mem_cons.mpr ⟨Nat.le_of_not_lt hcontrol, hs⟩

/-- With fuel for each character that is spelled, a string is read up to its quote. -/
theorem stringFrom_of_spells {s t : List Char} (h : Spells s t) (hs : NoControl s) {fuel : Nat}
    (hfuel : t.length < fuel) (read rest : List Char) :
    stringFrom fuel read (s ++ '"' :: rest) = .ok (String.ofList (read.reverse ++ t), rest) := by
  induction h generalizing fuel read with
  | nil =>
    obtain ⟨fuel, rfl⟩ := Nat.exists_eq_add_of_lt hfuel
    simp [stringFrom]
  | @plain c s t hquote hslash _ ih =>
    obtain ⟨fuel, rfl⟩ := Nat.exists_eq_add_of_lt hfuel
    obtain ⟨hc, hs⟩ := List.forall_mem_cons.mp hs
    simp only [List.cons_append, stringFrom, if_neg hquote, if_neg hslash, if_neg (Nat.not_lt.mpr hc)]
    rw [ih hs (by simp only [List.length_cons] at *; omega)]
    simp
  | @short e c s t hshort _ ih =>
    obtain ⟨fuel, rfl⟩ := Nat.exists_eq_add_of_lt hfuel
    obtain ⟨-, hs⟩ := List.forall_mem_cons.mp hs
    obtain ⟨-, hs⟩ := List.forall_mem_cons.mp hs
    simp only [List.cons_append, stringFrom]
    rw [if_neg (by decide), if_pos trivial, if_neg (ne_u_of_shortEscape? hshort), hshort]
    dsimp only
    rw [ih hs (by simp only [List.length_cons] at *; omega)]
    simp
  | @unit c digits s t hunit _ ih =>
    obtain ⟨fuel, rfl⟩ := Nat.exists_eq_add_of_lt hfuel
    -- The digits were read in front of the spelling, and are read alike in front of all the text.
    obtain ⟨used, hused⟩ := unicodeEscapeOf_digits hunit
    obtain rfl := hused.front
    obtain ⟨-, hs⟩ := List.forall_mem_cons.mp hs
    obtain ⟨-, hs⟩ := List.forall_mem_cons.mp hs
    obtain ⟨-, hs⟩ := List.forall_mem_append.mp hs
    simp only [List.cons_append, List.append_assoc, stringFrom, hused.read_append]
    rw [if_neg (by decide), if_pos trivial, if_pos trivial]
    simp only [bind, Except.bind]
    rw [ih hs (by simp only [List.length_cons] at *; omega)]
    simp

/-- A string takes no fewer characters than it has. -/
theorem Spells.length_le {s t : List Char} (h : Spells s t) : t.length ≤ s.length := by
  induction h with
  | nil => exact Nat.le_refl 0
  | plain _ _ _ ih => exact Nat.succ_le_succ ih
  | short _ _ ih => exact Nat.succ_le_succ (Nat.le_succ_of_le ih)
  | unit hunit _ ih =>
    obtain ⟨digits, hdigits⟩ := unicodeEscapeOf_digits hunit
    rw [hdigits.front]
    simp only [List.length_cons, List.length_append]
    omega

end WireSchema.Json
