import WireSchema.Unicode.Alphanumeric
import WireSchema.Unicode.Case

/-!
# What lower case letters are not

The lower case form of a letter or a digit is one character, or an `i` with a
dot above for one capital. It is never an underscore and never starts with the
dot, so underscores between words and the dot after an `i` can be told apart
from it. That it is lower case again is not needed here.
-/

namespace WireSchema.Unicode

set_option autoImplicit false

/-- The dot above, which is part of no name. -/
def dotAbove : Char := Char.ofNat 0x307

/-- No image of the run has this code. -/
def misses (code : Nat) : Nat × Nat × Nat × Nat → Bool
  | (first, last, _, image) => code < image || image + (last - first) < code

variable {c d : Char}

theorem toNat_ofNat_of_pos {n : Nat} (h : 0 < (Char.ofNat n).toNat) : (Char.ofNat n).toNat = n := by
  unfold Char.ofNat at h ⊢
  by_cases hvalid : n.isValidChar
  · rw [dif_pos hvalid]
    rfl
  · rw [dif_neg hvalid] at h
    exact absurd h (by decide)

theorem shift_ne {runs : List (Nat × Nat × Nat × Nat)} (hd : 0 < d.toNat)
    (hruns : runs.all (misses d.toNat) = true) (hc : c ≠ d) : shift runs c ≠ d := by
  unfold shift
  dsimp only
  split
  · next first last step image hfind =>
    have hrun := List.find?_some hfind
    have hmiss := List.all_eq_true.mp hruns _ (List.mem_of_find?_eq_some hfind)
    simp only [Bool.and_eq_true, Bool.or_eq_true, decide_eq_true_eq, misses] at hrun hmiss
    intro heq
    have hcode := congrArg Char.toNat heq
    rw [toNat_ofNat_of_pos (heq ▸ hd)] at hcode
    omega
  · exact hc

/-- What holds of the first 128 codes holds of every character of ASCII. -/
theorem forall_ascii {P : Char → Prop} (h : ∀ n < 0x80, P (Char.ofNat n)) (hc : c.toNat < 0x80) : P c := by
  have hcode := h c.toNat hc
  rwa [Char.ofNat_toNat] at hcode

theorem toLowercase_of_ascii (h : c.toNat < 0x80) : toLowercase c = [c.toLower] :=
  if_pos h

/-- The capital with a dot is the only one that becomes two characters. -/
theorem toLowercase_cases (c : Char) :
    (∃ x, toLowercase c = [x]) ∨ c.toNat = 0x130 ∧ toLowercase c = ['i', dotAbove] := by
  unfold toLowercase
  split
  · exact .inl ⟨_, rfl⟩
  · split
    · next h => exact .inr ⟨h, rfl⟩
    · exact .inl ⟨_, rfl⟩

theorem toLowercase_ne_nil (c : Char) : toLowercase c ≠ [] := by
  rcases toLowercase_cases c with ⟨x, h⟩ | ⟨-, h⟩ <;> simp [h]

theorem underscore_notMem_toLowercase (h : isAlphanumeric c = true) : '_' ∉ toLowercase c := by
  have hc : c ≠ '_' := by
    rintro rfl
    revert h
    decide
  by_cases hascii : c.toNat < 0x80
  · have hne : c ≠ '_' → c.toLower ≠ '_' :=
      forall_ascii (P := fun c => c ≠ '_' → c.toLower ≠ '_') (by decide +kernel) hascii
    rw [toLowercase_of_ascii hascii, List.mem_singleton]
    exact fun heq => hne hc heq.symm
  · rw [toLowercase, if_neg hascii]
    split
    · decide
    · rw [List.mem_singleton]
      exact fun heq => shift_ne (by decide) (by decide +kernel) hc heq.symm

theorem head?_toLowercase_ne (h : isAlphanumeric c = true) : (toLowercase c).head? ≠ some dotAbove := by
  have hc : c ≠ dotAbove := by
    rintro rfl
    revert h
    decide +kernel
  unfold toLowercase
  split
  · next hascii =>
    have hne := forall_ascii (P := fun c => c.toLower ≠ dotAbove) (by decide +kernel) hascii
    simpa using hne
  · split
    · decide
    · have hruns : toLowerRuns.all (misses dotAbove.toNat) = true := by decide +kernel
      simpa using shift_ne (by decide) hruns hc

end WireSchema.Unicode
