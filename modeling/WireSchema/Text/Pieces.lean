/-!
# Cutting a text at marks

A text with `n` marks has `n + 1` pieces, of which some may be empty. No piece
holds a mark; that the marks can be told apart again is not claimed.
-/

namespace WireSchema.Text

set_option autoImplicit false

/-- The stretches before, between and after the characters that are marks. -/
def pieces (isMark : Char → Bool) : List Char → List (List Char)
  | [] => [[]]
  | c :: rest =>
    if isMark c then [] :: pieces isMark rest
    else
      match pieces isMark rest with
      | [] => [[c]]
      | piece :: more => (c :: piece) :: more

theorem pieces_ne_nil (isMark : Char → Bool) (text : List Char) : pieces isMark text ≠ [] := by
  cases text with
  | nil => simp [pieces]
  | cons c rest =>
    simp only [pieces]
    split
    · simp
    · split <;> simp

@[simp] theorem flatten_pieces (isMark : Char → Bool) (text : List Char) :
    (pieces isMark text).flatten = text.filter (!isMark ·) := by
  induction text with
  | nil => rfl
  | cons c rest ih =>
    simp only [pieces]
    split
    · next h => simp [ih, h]
    · next h =>
      split
      · next hnil => exact absurd hnil (pieces_ne_nil isMark rest)
      · next piece more heq =>
        rw [heq] at ih
        simp only [List.flatten_cons] at ih
        simp [h, ih]

end WireSchema.Text
