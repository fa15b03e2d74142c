import WireSchema.Proofs.Text.WordRule
import WireSchema.Schema.Discriminator

/-!
# Names in snake case

Words of small letters and digits with one underscore between each two are left
alone by the reader of words: nothing in them begins another word. Every name
of ASCII is brought to that form, so it is a normal form of such names, and the
computed discriminator of an instruction depends on it only. Beyond ASCII a
word may keep a character that is a capital or is no letter at all.
-/

namespace WireSchema.Text

set_option autoImplicit false

open Unicode

/-- A small letter or a digit of ASCII. -/
def isSnakeChar (c : Char) : Bool :=
  'a' ≤ c && c ≤ 'z' || '0' ≤ c && c ≤ '9'

/-- Words of small letters and digits, none of them empty, with one underscore between each two. -/
def IsSnakeCase (text : List Char) : Prop :=
  ∃ words, text = ['_'].intercalate words ∧ ∀ word ∈ words, word ≠ [] ∧ ∀ c ∈ word, isSnakeChar c = true

section SnakeChar

variable {c : Char}

theorem ascii_of_isSnakeChar (h : isSnakeChar c = true) : c.toNat < 0x80 := by
  simp only [isSnakeChar, Bool.or_eq_true, Bool.and_eq_true, decide_eq_true_eq] at h
  have hz : c ≤ 'z' := by
    rcases h with h | h
    · exact h.2
    · exact Char.le_trans h.2 (by decide)
  exact Nat.lt_of_le_of_lt (show c.toNat ≤ 'z'.toNat from hz) (by decide)

theorem facts_of_isSnakeChar (h : isSnakeChar c = true) :
    isAlphanumeric c = true ∧ isUppercase c = false ∧ toLowercase c = [c] := by
  have hall := forall_ascii (P := fun c => isSnakeChar c = true →
    isAlphanumeric c = true ∧ isUppercase c = false ∧ toLowercase c = [c]) (by decide +kernel)
    (ascii_of_isSnakeChar h)
  exact hall h

theorem isSnakeChar_toLower (hc : c.toNat < 0x80) (h : isAlphanumeric c = true) : isSnakeChar c.toLower = true := by
  have hall := forall_ascii (P := fun c => isAlphanumeric c = true → isSnakeChar c.toLower = true)
    (by decide +kernel) hc
  exact hall h

end SnakeChar

/-- A run without capitals is one word. -/
theorem cutRun_of_forall_not_isUppercase (mode : WordMode) (word : List Char) {run : List Char} (hrun : run ≠ [])
    (h : ∀ c ∈ run, isUppercase c = false) : cutRun mode word run = [word.reverse ++ run] := by
  fun_induction cutRun mode word run with
  | case1 => exact absurd rfl hrun
  | case2 mode word c => simp
  | case3 mode word c next rest hcut _ => simp [hcut.2] at h
  | case4 mode word c next rest _ hcut _ => simp [hcut.2.1] at h
  | case5 mode word c next rest _ _ ih =>
    rw [ih (List.cons_ne_nil next rest) fun d hd => h d (List.mem_cons_of_mem c hd)]
    simp

theorem pieces_intercalate {isMark : Char → Bool} {mark : Char} (hmark : isMark mark = true) {words : List (List Char)}
    (hwords : words ≠ []) (h : ∀ word ∈ words, ∀ c ∈ word, isMark c = false) :
    pieces isMark ([mark].intercalate words) = words := by
  rw [pieces_eq_splitOnP]
  induction words with
  | nil => exact absurd rfl hwords
  | cons word rest ih =>
    obtain ⟨hword, hrest⟩ := List.forall_mem_cons.mp h
    cases rest with
    | nil => rw [List.intercalate_singleton, List.splitOnP_eq_singleton hword]
    | cons second others =>
      rw [List.intercalate_cons_cons, List.append_assoc, List.singleton_append,
        List.splitOnP_append_cons_of_forall_mem hword mark hmark, ih (List.cons_ne_nil second others) hrest]

section Words

variable {name : String} {ws : List (List Char)}

/-- The words of a text in snake case are those it is made of. -/
theorem words_intercalate (h : ∀ word ∈ ws, word ≠ [] ∧ ∀ c ∈ word, isSnakeChar c = true) :
    words (['_'].intercalate ws) = ws := by
  by_cases hnil : ws = []
  · rw [hnil]
    rfl
  have hmarks : ∀ word ∈ ws, ∀ c ∈ word, (!isAlphanumeric c) = false := fun word hword c hc => by
    rw [(facts_of_isSnakeChar ((h word hword).2 c hc)).1]
    rfl
  have hcut : ∀ word ∈ ws, cutRun .boundary [] word = [word] := fun word hword =>
    cutRun_of_forall_not_isUppercase .boundary [] (h word hword).1 fun c hc =>
      (facts_of_isSnakeChar ((h word hword).2 c hc)).2.1
  rw [words, runs, pieces_intercalate (by decide) hnil hmarks, List.flatMap_congr hcut, List.flatMap_singleton']

theorem flatMap_toLowercase_eq_self {word : List Char} (h : ∀ c ∈ word, isSnakeChar c = true) :
    word.flatMap toLowercase = word := by
  rw [List.flatMap_congr fun c hc => (facts_of_isSnakeChar (h c hc)).2.2, List.flatMap_singleton']

theorem snakeCase_eq_self (h : IsSnakeCase name.toList) : snakeCase name = name := by
  obtain ⟨ws, htext, hws⟩ := h
  have hlower : loweredWords name = ws := by
    rw [loweredWords, htext, words_intercalate hws,
      List.map_congr_left fun word hword => flatMap_toLowercase_eq_self (hws word hword).2, List.map_id']
  apply String.toList_injective
  rw [toList_snakeCase, hlower, htext]

theorem isSnakeCase_snakeCase (hname : ∀ c ∈ name.toList, c.toNat < 0x80) : IsSnakeCase (snakeCase name).toList := by
  refine ⟨loweredWords name, toList_snakeCase name, fun word hword => ?_⟩
  obtain ⟨source, hsource, rfl⟩ := List.mem_map.mp hword
  have hascii : ∀ c ∈ source, c.toNat < 0x80 := fun c hc => by
    have hmem : c ∈ (words name.toList).flatten := List.mem_flatten.mpr ⟨source, hsource, hc⟩
    rw [flatten_words, List.mem_filter] at hmem
    exact hname c hmem.1
  have hlower : source.flatMap toLowercase = source.map Char.toLower := by
    rw [List.flatMap_congr fun c hc => toLowercase_of_ascii (hascii c hc), List.map_eq_flatMap]
  rw [hlower]
  refine ⟨fun hnil => ne_nil_of_mem_words hsource (List.map_eq_nil_iff.mp hnil), fun c hc => ?_⟩
  obtain ⟨d, hd, rfl⟩ := List.mem_map.mp hc
  exact isSnakeChar_toLower (hascii d hd) (isAlphanumeric_of_mem_words hsource hd)

end Words

open Schema (Discriminator) in
/-- Snake case is a normal form of the names of ASCII, and the discriminator of an instruction sees no more of them. -/
theorem ascii_snakeCase_normal (name : String) (hname : ∀ c ∈ name.toList, c.toNat < 0x80) :
    IsSnakeCase (snakeCase name).toList
      ∧ snakeCase (snakeCase name) = snakeCase name
      ∧ Discriminator.compute .instruction name = Discriminator.compute .instruction (snakeCase name) := by
  have hform := isSnakeCase_snakeCase hname
  have hself : snakeCase (snakeCase name) = snakeCase name := snakeCase_eq_self hform
  refine ⟨hform, hself, ?_⟩
  rw [Discriminator.compute, Discriminator.compute, Discriminator.hashedName, Discriminator.hashedName, hself]

open Schema (Discriminator) in
theorem ascii_snakeCase_normal_mixed :
    let name := "__XMLHttp2Request--a1B2"
    (∀ c ∈ name.toList, c.toNat < 0x80) ∧ snakeCase name = "xml_http2_request_a1_b2"
      ∧ IsSnakeCase (snakeCase name).toList
      ∧ snakeCase (snakeCase name) = snakeCase name
      ∧ Discriminator.compute .instruction name = Discriminator.compute .instruction (snakeCase name) := by
  intro name
  have hall : name.toList.all (fun c => decide (c.toNat < 0x80)) = true := by decide +kernel
  have hname : ∀ c ∈ name.toList, c.toNat < 0x80 := fun c hc => of_decide_eq_true (List.all_eq_true.mp hall c hc)
  exact ⟨hname, by decide +kernel, ascii_snakeCase_normal name hname⟩

end WireSchema.Text
