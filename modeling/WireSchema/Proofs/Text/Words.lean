import WireSchema.Proofs.Unicode.Case
import WireSchema.Text.Words

/-!
# The two spellings of a name compared

A name in snake case can be cut into its words in lower case again. Words with
one lower case form have one capitalized form as well, if no first letter loses
its upper case on the way through lower case and no capital sigma ends a word.
Names of ASCII meet both conditions. Without them nothing is claimed.
-/

namespace WireSchema.Text

set_option autoImplicit false

open Unicode

/-- Upper case after lower case is upper case at once; a letter with two lower case characters is left alone. -/
def keepsCapital (c : Char) : Bool :=
  match toLowercase c with
  | [x] => toUppercase x == toUppercase c
  | _ => true

/-- The lower case form of the word determines how it is capitalized. -/
def isRegular (word : List Char) : Bool :=
  word.head?.all keepsCapital && word.tail.getLast? != some 'Σ'

/-- Every word of the name in lower case. -/
def loweredWords (name : String) : List (List Char) :=
  (words name.toList).map (·.flatMap toLowercase)

section Cutting

variable {isMark : Char → Bool} {text piece : List Char}

theorem not_isMark_of_mem_pieces (h : piece ∈ pieces isMark text) {c : Char} (hc : c ∈ piece) :
    isMark c = false := by
  have hmem : c ∈ (pieces isMark text).flatten := List.mem_flatten.mpr ⟨piece, h, hc⟩
  have hkept : c ∈ text ∧ isMark c = false := by simpa using hmem
  exact hkept.2

/-- Cutting a run drops nothing and repeats nothing. -/
theorem flatten_cutRun (mode : WordMode) (word run : List Char) (hrun : run ≠ []) :
    (cutRun mode word run).flatten = word.reverse ++ run := by
  fun_induction cutRun mode word run with
  | case1 => contradiction
  | case2 => simp
  | case3 mode word c next rest h ih => simp [ih]
  | case4 mode word c next rest h h' ih => simp [ih]
  | case5 mode word c next rest h h' ih => simp [ih]

/-- A word in upper case has been started, so no cut leaves an empty word. -/
theorem ne_nil_of_mem_cutRun {mode : WordMode} {word run : List Char}
    (hstarted : mode = .upper → word ≠ []) {part : List Char} (h : part ∈ cutRun mode word run) :
    part ≠ [] := by
  fun_induction cutRun mode word run with
  | case1 => cases h
  | case2 mode word c =>
    rw [List.mem_singleton] at h
    simp [h]
  | case3 mode word c next rest hcut ih =>
    rcases List.mem_cons.mp h with rfl | h
    · simp
    · exact ih nofun h
  | case4 mode word c next rest hlower hcut ih =>
    rcases List.mem_cons.mp h with rfl | h
    · simpa using hstarted hcut.1
    · exact ih nofun h
  | case5 mode word c next rest hlower hcut ih => exact ih (fun _ => List.cons_ne_nil _ _) h

end Cutting

section Words

variable {name : String} {word : List Char}

theorem ne_nil_of_mem_words (h : word ∈ words name.toList) : word ≠ [] := by
  obtain ⟨run, -, hword⟩ := List.mem_flatMap.mp h
  have hstarted : WordMode.boundary = .upper → ([] : List Char) ≠ [] := nofun
  exact ne_nil_of_mem_cutRun hstarted hword

theorem isAlphanumeric_of_mem_words (h : word ∈ words name.toList) {c : Char} (hc : c ∈ word) :
    isAlphanumeric c = true := by
  obtain ⟨run, hrun, hword⟩ := List.mem_flatMap.mp h
  have hne : run ≠ [] := by
    rintro rfl
    cases hword
  have hmem : c ∈ (cutRun .boundary [] run).flatten := List.mem_flatten.mpr ⟨word, hword, hc⟩
  rw [flatten_cutRun .boundary [] run hne] at hmem
  simpa using not_isMark_of_mem_pieces hrun hmem

end Words

section SnakeCase

variable {a b : String}

theorem toList_snakeCase (name : String) : (snakeCase name).toList = ['_'].intercalate (loweredWords name) := by
  simp [snakeCase, loweredWords, String.toList_intercalate, Function.comp_def]

theorem underscore_notMem_loweredWords {word : List Char} (h : word ∈ loweredWords a) : '_' ∉ word := by
  obtain ⟨source, hsource, rfl⟩ := List.mem_map.mp h
  intro hmem
  obtain ⟨c, hc, hlower⟩ := List.mem_flatMap.mp hmem
  exact underscore_notMem_toLowercase (isAlphanumeric_of_mem_words hsource hc) hlower

theorem loweredWords_ne_singleton : loweredWords a ≠ [[]] := by
  intro h
  have hmem : [] ∈ loweredWords a := by simp [h]
  obtain ⟨word, hword, hempty⟩ := List.mem_map.mp hmem
  obtain ⟨c, rest, rfl⟩ := List.exists_cons_of_ne_nil (ne_nil_of_mem_words hword)
  exact toLowercase_ne_nil c (List.append_eq_nil_iff.mp hempty).1

/-- Cutting a name in snake case at its underscores. -/
theorem splitOn_snakeCase (name : String) :
    (snakeCase name).toList.splitOn '_' = if loweredWords name = [] then [[]] else loweredWords name := by
  rw [toList_snakeCase]
  split
  · next h => simp [h]
  · next h => exact List.splitOn_intercalate '_' (fun word => underscore_notMem_loweredWords) h

theorem loweredWords_eq (h : snakeCase a = snakeCase b) : loweredWords a = loweredWords b := by
  have hsplit := congrArg (fun name => name.toList.splitOn '_') h
  simp only [splitOn_snakeCase] at hsplit
  split at hsplit <;> split at hsplit
  · simp_all
  · exact absurd hsplit.symm loweredWords_ne_singleton
  · exact absurd hsplit loweredWords_ne_singleton
  · exact hsplit

end SnakeCase

section CamelCase

variable {a b : List Char}

theorem head?_flatMap_toLowercase_ne (ha : ∀ c ∈ a, isAlphanumeric c = true) :
    (a.flatMap toLowercase).head? ≠ some dotAbove := by
  cases a with
  | nil => exact nofun
  | cons c rest =>
    have hhead := head?_toLowercase_ne (ha c List.mem_cons_self)
    rcases toLowercase_cases c with ⟨x, hc⟩ | ⟨-, hc⟩ <;> simpa [hc] using hhead

/-- No dot above starts a lower case form, so the forms can be told apart in a row. -/
theorem toLowercase_append_inj {c d : Char} {s t : List Char} (hs : s.head? ≠ some dotAbove)
    (ht : t.head? ≠ some dotAbove) (h : toLowercase c ++ s = toLowercase d ++ t) :
    toLowercase c = toLowercase d ∧ s = t := by
  have hcases := toLowercase_cases d
  rcases toLowercase_cases c with ⟨x, hc⟩ | ⟨-, hc⟩ <;> rcases hcases with ⟨y, hd⟩ | ⟨-, hd⟩ <;>
    rw [hc, hd] at h ⊢
  · simpa using h
  · obtain ⟨-, rfl⟩ := List.cons.inj h
    exact absurd rfl hs
  · obtain ⟨-, rfl⟩ := List.cons.inj h
    exact absurd rfl ht
  · simpa using h

theorem map_toLowercase_eq (ha : ∀ c ∈ a, isAlphanumeric c = true) (hb : ∀ c ∈ b, isAlphanumeric c = true)
    (h : a.flatMap toLowercase = b.flatMap toLowercase) : a.map toLowercase = b.map toLowercase := by
  induction a generalizing b with
  | nil =>
    cases b with
    | nil => rfl
    | cons d rest => simp [toLowercase_ne_nil] at h
  | cons c first ih =>
    cases b with
    | nil => simp [toLowercase_ne_nil] at h
    | cons d second =>
      rw [List.forall_mem_cons] at ha hb
      simp only [List.flatMap_cons] at h
      obtain ⟨hhead, htail⟩ := toLowercase_append_inj (head?_flatMap_toLowercase_ne ha.2)
        (head?_flatMap_toLowercase_ne hb.2) h
      rw [List.map_cons, List.map_cons, hhead, ih ha.2 hb.2 htail]

theorem lowerTail_eq (h : a.getLast? ≠ some 'Σ') : lowerTail a = a.flatMap toLowercase := by
  fun_induction lowerTail a with
  | case1 => rfl
  | case2 => simp at h
  | case3 c rest hne ih =>
    rw [List.flatMap_cons, ih]
    cases rest with
    | nil => simp
    | cons d more => simpa [List.getLast?_cons_cons] using h

theorem toUppercase_eq {c d : Char} (hc : keepsCapital c = true) (hd : keepsCapital d = true)
    (h : toLowercase c = toLowercase d) : toUppercase c = toUppercase d := by
  rcases toLowercase_cases c with ⟨x, hx⟩ | ⟨hcode, hdot⟩
  · simp only [keepsCapital, ← h, hx, beq_iff_eq] at hc hd
    rw [← hc, hd]
  · rcases toLowercase_cases d with ⟨y, hy⟩ | ⟨hcode', -⟩
    · simp [hdot, hy] at h
    · rw [Char.toNat_inj.mp (hcode.trans hcode'.symm)]

theorem capitalize_eq (ha : isRegular a = true) (hb : isRegular b = true)
    (h : a.map toLowercase = b.map toLowercase) : capitalize a = capitalize b := by
  cases a with
  | nil =>
    obtain rfl := List.map_eq_nil_iff.mp h.symm
    rfl
  | cons c first =>
    cases b with
    | nil => cases h
    | cons d second =>
      simp only [isRegular, List.head?_cons, Option.all_some, List.tail_cons, Bool.and_eq_true, bne_iff_ne] at ha hb
      obtain ⟨hhead, htail⟩ := List.cons.inj h
      have hlower : first.flatMap toLowercase = second.flatMap toLowercase := by
        rw [List.flatMap_def, htail, ← List.flatMap_def]
      rw [capitalize, capitalize, lowerTail_eq ha.2, lowerTail_eq hb.2, toUppercase_eq ha.1 hb.1 hhead, hlower]

end CamelCase

theorem flatMap_capitalize_eq {ws vs : List (List Char)}
    (hws : ∀ word ∈ ws, (∀ c ∈ word, isAlphanumeric c = true) ∧ isRegular word = true)
    (hvs : ∀ word ∈ vs, (∀ c ∈ word, isAlphanumeric c = true) ∧ isRegular word = true)
    (h : ws.map (·.flatMap toLowercase) = vs.map (·.flatMap toLowercase)) :
    ws.flatMap capitalize = vs.flatMap capitalize := by
  induction ws generalizing vs with
  | nil =>
    obtain rfl := List.map_eq_nil_iff.mp h.symm
    rfl
  | cons first ws ih =>
    cases vs with
    | nil => cases h
    | cons second vs =>
      rw [List.forall_mem_cons] at hws hvs
      obtain ⟨hhead, htail⟩ := List.cons.inj h
      have hlower := map_toLowercase_eq hws.1.1 hvs.1.1 hhead
      rw [List.flatMap_cons, List.flatMap_cons, capitalize_eq hws.1.2 hvs.1.2 hlower, ih hws.2 hvs.2 htail]

/-- Names with regular words have one form in camel case if they have one in snake case. -/
theorem upperCamelCase_eq {a b : String} (ha : (words a.toList).all isRegular = true)
    (hb : (words b.toList).all isRegular = true) (h : snakeCase a = snakeCase b) :
    upperCamelCase a = upperCamelCase b := by
  have hname : ∀ {name : String}, (words name.toList).all isRegular = true →
      ∀ word ∈ words name.toList, (∀ c ∈ word, isAlphanumeric c = true) ∧ isRegular word = true :=
    fun hall word hword =>
      ⟨fun c => isAlphanumeric_of_mem_words hword, List.all_eq_true.mp hall word hword⟩
  rw [upperCamelCase, upperCamelCase, flatMap_capitalize_eq (hname ha) (hname hb) (loweredWords_eq h)]

/-- Words of ASCII are regular. -/
theorem isRegular_of_ascii {word : List Char} (h : ∀ c ∈ word, c.toNat < 0x80) : isRegular word = true := by
  rw [isRegular, Bool.and_eq_true, bne_iff_ne, Option.all_eq_true]
  refine ⟨fun c hc => ?_, fun hlast => ?_⟩
  · exact forall_ascii (P := fun c => keepsCapital c = true) (by decide +kernel) (h c (List.mem_of_mem_head? hc))
  · have hsigma := h 'Σ' (List.mem_of_mem_tail (List.mem_of_getLast? hlast))
    revert hsigma
    decide

example : (words "fooΣ2ẞ".toList).all isRegular = true := by decide +kernel
example : (words "ΟΔΟΣ".toList).all isRegular = false := by decide +kernel

end WireSchema.Text
