import WireSchema.Proofs.Derivation.Resolved
import WireSchema.Schema.Validation
import Std.Data.String.ToNat

/-!
# Texts that can be told apart

What follows a codec within a key is known up to the lengths of arrays: it closes
what is open, and then comes a separator or the end. A word stops where its
characters stop, and the text of a constant where what follows it begins, if
there is no separator in it. Nothing is said of constants with a separator.
-/

namespace WireSchema

set_option autoImplicit false

open Schema

section Words

variable {p : Char → Bool} {w w' s s' : List Char}

/-- The text starts with no character of the class. -/
def Stops (p : Char → Bool) (s : List Char) : Prop :=
  ∀ c ∈ s.head?, p c = false

theorem stops_cons {c : Char} (h : p c = false) (rest : List Char) : Stops p (c :: rest) := by
  intro d hd
  cases hd
  exact h

theorem word_append_inj (hw : ∀ c ∈ w, p c = true) (hw' : ∀ c ∈ w', p c = true) (hs : Stops p s)
    (hs' : Stops p s') (h : w ++ s = w' ++ s') : w = w' ∧ s = s' := by
  induction w generalizing w' with
  | nil =>
    cases w' with
    | nil => exact ⟨rfl, h⟩
    | cons c w' =>
      rw [List.nil_append] at h
      have hc := hs c (by rw [h]; rfl)
      rw [hw' c List.mem_cons_self] at hc
      cases hc
  | cons c w ih =>
    cases w' with
    | nil =>
      rw [List.nil_append] at h
      have hc := hs' c (by rw [← h]; rfl)
      rw [hw c List.mem_cons_self] at hc
      cases hc
    | cons d w' =>
      obtain ⟨rfl, htail⟩ := List.cons.inj h
      obtain ⟨rfl, hrest⟩ := ih (fun c hc => hw c (List.mem_cons_of_mem _ hc))
        (fun c hc => hw' c (List.mem_cons_of_mem _ hc)) htail
      exact ⟨rfl, hrest⟩

end Words

/-- What closes an argument list or an array. -/
inductive Closer where
  | angle
  | bracket
deriving DecidableEq

def bracketText (n : Nat) : List Char :=
  ';' :: ' ' :: (Nat.toDigits 10 n ++ [']'])

/-- A text that closes what is open, from the inside out. -/
inductive Closes : List Closer → List Char → Prop
  | done : Closes [] []
  | angle {K : List Closer} {w : List Char} : Closes K w → Closes (.angle :: K) ('>' :: w)
  | bracket {K : List Closer} {w : List Char} (n : Nat) :
      Closes K w → Closes (.bracket :: K) (bracketText n ++ w)

def separator : List Char := [',', ' ']

/-- The end, or a separator. -/
def Ends (e : List Char) : Prop :=
  e = [] ∨ ∃ rest, e = separator ++ rest

/-- What may follow a codec or a constant inside of `K`. -/
def Follows (K : List Closer) (s : List Char) : Prop :=
  ∃ w e, s = w ++ e ∧ Closes K w ∧ Ends e

def Unsplit (text : List Char) : Prop :=
  ¬ separator <:+: text

section Follows

variable {K : List Closer} {s s' w w' e e' c c' : List Char}

theorem follows_nil : Follows [] [] :=
  ⟨[], [], rfl, .done, .inl rfl⟩

theorem follows_separator (rest : List Char) : Follows [] (separator ++ rest) :=
  ⟨[], _, rfl, .done, .inr ⟨rest, rfl⟩⟩

theorem Follows.angle (h : Follows K s) : Follows (.angle :: K) ('>' :: s) := by
  obtain ⟨w, e, rfl, hw, he⟩ := h
  exact ⟨'>' :: w, e, rfl, .angle hw, he⟩

theorem Follows.bracket (n : Nat) (h : Follows K s) : Follows (.bracket :: K) (bracketText n ++ s) := by
  obtain ⟨w, e, rfl, hw, he⟩ := h
  exact ⟨bracketText n ++ w, e, by rw [List.append_assoc], .bracket n hw, he⟩

theorem Follows.head (h : Follows K s) : ∀ d ∈ s.head?, d = ',' ∨ d = '>' ∨ d = ';' := by
  obtain ⟨w, e, rfl, hw, he⟩ := h
  intro d hd
  cases hw with
  | done =>
    rcases he with rfl | ⟨rest, rfl⟩
    · cases hd
    · cases hd
      exact .inl rfl
  | angle _ =>
    cases hd
    exact .inr (.inl rfl)
  | bracket n _ =>
    cases hd
    exact .inr (.inr rfl)

theorem bracketText_append_inj {n m : Nat} (h : bracketText n ++ s = bracketText m ++ s') :
    n = m ∧ s = s' := by
  have hdigits : ∀ k : Nat, ∀ d ∈ Nat.toDigits 10 k, d.isDigit = true := fun k d hd =>
    Nat.isDigit_of_mem_toDigits (by decide) (by decide) hd
  simp only [bracketText, List.cons_append, List.cons.injEq, true_and, List.append_assoc,
    List.nil_append] at h
  obtain ⟨hnm, hrest⟩ := word_append_inj (p := Char.isDigit) (hdigits n) (hdigits m)
    (stops_cons rfl _) (stops_cons rfl _) h
  refine ⟨Nat.repr_injective (String.toList_injective ?_), (List.cons.inj hrest).2⟩
  rw [Nat.toList_repr, Nat.toList_repr, hnm]

theorem append_bracketText_inj {n m : Nat} (h : c ++ bracketText n = c' ++ bracketText m) :
    c = c' ∧ n = m := by
  have hdigits : ∀ k : Nat, ∀ d ∈ (Nat.toDigits 10 k).reverse, d.isDigit = true := fun k d hd =>
    Nat.isDigit_of_mem_toDigits (by decide) (by decide) (List.mem_reverse.mp hd)
  have hreverse := congrArg List.reverse h
  simp only [bracketText, List.reverse_append, List.reverse_cons, List.reverse_nil, List.append_assoc,
    List.nil_append, List.cons_append, List.cons.injEq, true_and] at hreverse
  obtain ⟨hnm, hrest⟩ := word_append_inj (p := Char.isDigit) (hdigits n) (hdigits m)
    (stops_cons rfl _) (stops_cons rfl _) hreverse
  refine ⟨List.reverse_inj.mp (List.cons.inj (List.cons.inj hrest).2).2, ?_⟩
  refine Nat.repr_injective (String.toList_injective ?_)
  rw [Nat.toList_repr, Nat.toList_repr]
  exact List.reverse_inj.mp hnm

/-- Closers are taken off from the outside in. -/
theorem append_closes_inj (hw : Closes K w) (hw' : Closes K w') (h : c ++ w = c' ++ w') :
    c = c' ∧ w = w' := by
  induction hw generalizing c c' w' with
  | done =>
    cases hw'
    exact ⟨by simpa using h, rfl⟩
  | @angle K w _ ih =>
    cases hw' with
    | @angle _ v hv =>
      have happend : (c ++ ['>']) ++ w = (c' ++ ['>']) ++ v := by simpa using h
      obtain ⟨hc, rfl⟩ := ih hv happend
      exact ⟨List.append_cancel_right hc, rfl⟩
  | @bracket K w n _ ih =>
    cases hw' with
    | @bracket _ v m hv =>
      have happend : (c ++ bracketText n) ++ w = (c' ++ bracketText m) ++ v := by simpa using h
      obtain ⟨hc, rfl⟩ := ih hv happend
      obtain ⟨rfl, rfl⟩ := append_bracketText_inj hc
      exact ⟨rfl, rfl⟩

theorem not_mem_of_closes (hw : Closes K w) : ',' ∉ w := by
  have hdigits : ∀ n : Nat, ',' ∉ Nat.toDigits 10 n := fun n h =>
    absurd (Nat.isDigit_of_mem_toDigits (by decide) (by decide) h) (by decide)
  induction hw with
  | done => exact List.not_mem_nil
  | angle _ ih => simpa using ih
  | bracket n _ ih => simpa [bracketText, hdigits n] using ih

theorem head_of_closes (hw : Closes K w) : ∀ d ∈ w.head?, d ≠ ' ' := by
  intro d hd
  cases hw with
  | done => cases hd
  | angle _ =>
    cases hd
    decide
  | bracket n _ =>
    cases hd
    decide

/-- Closers behind a text bring no separator into it. -/
theorem unsplit_append_closes (hc : Unsplit c) (hw : Closes K w) : Unsplit (c ++ w) := by
  induction c with
  | nil =>
    intro h
    exact not_mem_of_closes hw (h.subset List.mem_cons_self)
  | cons d c ih =>
    intro h
    rcases List.infix_cons_iff.mp h with hstart | hrest
    · obtain ⟨rfl, hspace⟩ := List.cons_prefix_cons.mp hstart
      cases c with
      | nil =>
        obtain ⟨rest, hrest⟩ := hspace
        have hw' : w = ' ' :: rest := hrest.symm
        exact head_of_closes hw ' ' (by rw [hw']; rfl) rfl
      | cons d' c =>
        obtain ⟨rfl, -⟩ := List.cons_prefix_cons.mp hspace
        exact hc ⟨[], c, rfl⟩
    · exact ih (fun hinside => hc (hinside.trans (List.infix_cons (List.infix_refl c)))) hrest

theorem append_ends_inj (hc : Unsplit c) (hc' : Unsplit c') (he : Ends e) (he' : Ends e')
    (h : c ++ e = c' ++ e') : c = c' ∧ e = e' := by
  -- what one text has on top of the other would begin with a separator
  have hstep : ∀ {c c' z e e' : List Char}, Unsplit c' → Ends e → Ends e' → c' = c ++ z → e = z ++ e' →
      z = [] := by
    intro c c' z e e' hc' he he' hz hez
    rcases he with rfl | ⟨rest, rfl⟩
    · exact (List.append_eq_nil_iff.mp hez.symm).1
    · rcases z with _ | ⟨d, _ | ⟨d', z⟩⟩
      · rfl
      · obtain ⟨-, hrest⟩ := List.cons.inj hez
        rcases he' with rfl | ⟨rest', rfl⟩
        · cases hrest
        · exact absurd (List.cons.inj hrest).1 (by decide)
      · obtain ⟨rfl, hrest⟩ := List.cons.inj hez
        obtain ⟨rfl, -⟩ := List.cons.inj hrest
        exact absurd ⟨c, z, by simp [hz, separator]⟩ hc'
  rcases List.append_eq_append_iff.mp h with ⟨z, hz, hez⟩ | ⟨z, hz, hez⟩
  · obtain rfl := hstep hc' he he' hz hez
    exact ⟨by simpa using hz.symm, hez⟩
  · obtain rfl := hstep hc he' he hz hez
    exact ⟨by simpa using hz, hez.symm⟩

theorem const_append_inj (hc : Unsplit c) (hc' : Unsplit c') (hs : Follows K s) (hs' : Follows K s')
    (h : c ++ s = c' ++ s') : c = c' ∧ s = s' := by
  obtain ⟨w, e, rfl, hw, he⟩ := hs
  obtain ⟨w', e', rfl, hw', he'⟩ := hs'
  rw [← List.append_assoc, ← List.append_assoc] at h
  obtain ⟨hcw, rfl⟩ := append_ends_inj (unsplit_append_closes hc hw) (unsplit_append_closes hc' hw') he he' h
  obtain ⟨rfl, rfl⟩ := append_closes_inj hw hw' hcw
  exact ⟨rfl, rfl⟩

end Follows

end WireSchema
