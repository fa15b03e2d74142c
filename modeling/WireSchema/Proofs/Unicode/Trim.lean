import Mathlib.Data.List.DropRight
import WireSchema.Unicode.Ranges

/-!
# A text without the white space at its ends

What is left is a stretch of the text that neither begins nor ends with white
space, and there is nothing but white space around it. White space inside of it
stays.
-/

namespace WireSchema.Unicode

set_option autoImplicit false

/-- The text has no white space at its ends. -/
structure IsTrimmed (text : List Char) : Prop where
  first : ∀ c ∈ text.head?, isBlank c = false
  last : ∀ c ∈ text.getLast?, isBlank c = false

variable {before text after : List Char}

theorem IsTrimmed.of_forall (h : ∀ c ∈ text, isBlank c = false) : IsTrimmed text :=
  ⟨fun c hc => h c (List.mem_of_mem_head? hc), fun c hc => h c (List.mem_of_mem_getLast? hc)⟩

theorem dropWhile_isBlank_eq_self (h : ∀ c ∈ text.head?, isBlank c = false) : text.dropWhile isBlank = text := by
  cases text with
  | nil => rfl
  | cons c rest => exact List.dropWhile_cons_of_neg (by simp [h c rfl])

/-- White space around a text without it at its own ends is dropped, and no more. -/
theorem trim_append (hbefore : ∀ c ∈ before, isBlank c = true) (hafter : ∀ c ∈ after, isBlank c = true)
    (h : IsTrimmed text) : trim (before ++ (text ++ after)) = text := by
  have hback : ∀ c ∈ after.reverse, isBlank c = true := fun c hc => hafter c (List.mem_reverse.mp hc)
  rw [trim, List.dropWhile_append_of_pos hbefore]
  cases text with
  | nil =>
    rw [List.nil_append, List.dropWhile_eq_nil_iff.mpr hafter]
    rfl
  | cons c rest =>
    have hlast : ∀ d ∈ (c :: rest).reverse.head?, isBlank d = false := by
      rw [List.head?_reverse]
      exact h.last
    have hfront : (c :: rest ++ after).dropWhile isBlank = c :: rest ++ after := dropWhile_isBlank_eq_self h.first
    rw [hfront, List.reverse_append, List.dropWhile_append_of_pos hback, dropWhile_isBlank_eq_self hlast,
      List.reverse_reverse]

theorem trim_isPrefix (text : List Char) : trim text <+: text.dropWhile isBlank :=
  List.rdropWhile_prefix isBlank (text.dropWhile isBlank)

theorem isTrimmed_trim (text : List Char) : IsTrimmed (trim text) where
  first c hc := by
    obtain ⟨dropped, hdropped⟩ := trim_isPrefix text
    have hhead := List.head?_dropWhile_not isBlank text
    rw [← hdropped, List.head?_append, Option.mem_def.mp hc] at hhead
    exact hhead
  last c hc := by
    have hhead := List.head?_dropWhile_not isBlank (text.dropWhile isBlank).reverse
    rw [trim, List.getLast?_reverse] at hc
    rw [Option.mem_def.mp hc] at hhead
    exact hhead

theorem trim_sublist (text : List Char) : (trim text).Sublist text :=
  (trim_isPrefix text).sublist.trans (List.dropWhile_sublist isBlank)

end WireSchema.Unicode
