import Mathlib.Data.List.Forall2
import WireSchema.Proofs.Text.Words
import WireSchema.Proofs.Unicode.Classes

/-!
# Where a word begins

The rule of the words, without a state: which characters of a run begin a word
is said by the characters before them and the one after. A name has one
sequence of words that follows the rule, and it is the one that a reader with a
state finds. Whether the words can be told apart from the name in snake case is
not looked at here.
-/

namespace WireSchema.Text

set_option autoImplicit false

open Unicode

/-- The last character that is of upper or lower case. -/
def nearestCased? (before : List Char) : Option Char :=
  before.reverse.find? fun d => isLowercase d || isUppercase d

/-- A word begins inside of a run, after `before`, with `c`. -/
def BeginsWord (before : List Char) (c : Char) (after : List Char) : Prop :=
  isUppercase c = true ∧ ∃ d ∈ nearestCased? before,
    isLowercase d = true ∨ isUppercase d = true ∧ ∃ e ∈ after.head?, isLowercase e = true

/-- The first so many words make up the front of a run. -/
def Reaches (words : List (List Char)) (front : List Char) : Prop :=
  ∃ done, done <+: words ∧ done.flatten = front

/-- The words of one run, cut where the rule says and nowhere else. -/
structure CutsRun (run : List Char) (words : List (List Char)) : Prop where
  whole : words.flatten = run
  nonempty : [] ∉ words
  begins : ∀ before c after, run = before ++ c :: after → before ≠ [] →
    (Reaches words before ↔ BeginsWord before c after)

/-- The words of the runs that remain when a name is cut at all that is neither letter nor digit. -/
def CutsName (name : List Char) (words : List (List Char)) : Prop :=
  ∃ cuts, List.Forall₂ CutsRun ((name.splitOnP fun c => !isAlphanumeric c).filter (· ≠ [])) cuts ∧ words = cuts.flatten

section Reaches

variable {word front : List Char} {words others : List (List Char)}

theorem reaches_nil (words : List (List Char)) : Reaches words [] :=
  ⟨[], List.nil_prefix, rfl⟩

theorem reaches_cons :
    Reaches (word :: words) front ↔ front = [] ∨ ∃ rest, front = word ++ rest ∧ Reaches words rest := by
  constructor
  · rintro ⟨done, hdone, rfl⟩
    rcases List.prefix_cons_iff.mp hdone with rfl | ⟨more, rfl, hmore⟩
    · exact .inl rfl
    · exact .inr ⟨more.flatten, rfl, more, hmore, rfl⟩
  · rintro (rfl | ⟨_, rfl, done, hdone, rfl⟩)
    · exact reaches_nil _
    · exact ⟨word :: done, List.prefix_cons_inj _ |>.mpr hdone, rfl⟩

theorem reaches_cons_append {rest : List Char} (hne : word ≠ []) :
    Reaches (word :: words) (word ++ rest) ↔ Reaches words rest := by
  rw [reaches_cons]
  constructor
  · rintro (hnil | ⟨other, heq, hother⟩)
    · exact absurd (List.append_eq_nil_iff.mp hnil).1 hne
    · rwa [List.append_cancel_left heq]
  · exact fun h => .inr ⟨rest, rfl, h⟩

/-- Words without an empty one are known from where they begin. -/
theorem eq_of_reaches (hwords : [] ∉ words) (hothers : [] ∉ others)
    (h : ∀ front, Reaches words front ↔ Reaches others front) : words = others := by
  have hstart : ∀ {word : List Char} {words : List (List Char)}, Reaches (word :: words) word :=
    fun {word words} => reaches_cons.mpr (.inr ⟨[], (List.append_nil _).symm, reaches_nil _⟩)
  have hempty : ∀ {front : List Char}, Reaches [] front → front = [] := by
    rintro front ⟨done, hdone, rfl⟩
    rw [List.prefix_nil.mp hdone]
    rfl
  induction words generalizing others with
  | nil =>
    cases others with
    | nil => rfl
    | cons other others => exact absurd (hempty ((h other).mpr hstart)) fun hnil => hothers (by simp [hnil])
  | cons word words ih =>
    have hword : word ≠ [] := fun hnil => hwords (by simp [hnil])
    cases others with
    | nil => exact absurd (hempty ((h word).mp hstart)) hword
    | cons other others =>
      have hother : other ≠ [] := fun hnil => hothers (by simp [hnil])
      obtain ⟨rest, hrest, -⟩ := (reaches_cons.mp ((h word).mp hstart)).resolve_left hword
      obtain ⟨rest', hrest', -⟩ := (reaches_cons.mp ((h other).mpr hstart)).resolve_left hother
      have heq : word = other :=
        List.IsPrefix.eq_of_length_le ⟨rest', hrest'.symm⟩ (by rw [hrest]; simp)
      subst heq
      have htail : words = others := by
        refine ih (fun hmem => hwords (List.mem_cons_of_mem _ hmem)) (fun hmem => hothers (List.mem_cons_of_mem _ hmem))
          fun front => ?_
        rw [← reaches_cons_append hword, h, reaches_cons_append hword]
      rw [htail]

end Reaches

namespace CutsRun

variable {run front : List Char} {words others : List (List Char)}

theorem reaches_iff (h : CutsRun run words) :
    Reaches words front
      ↔ front = [] ∨ front = run ∨ ∃ c after, run = front ++ c :: after ∧ BeginsWord front c after := by
  constructor
  · intro hreaches
    obtain ⟨done, ⟨rest, rfl⟩, rfl⟩ := id hreaches
    have hrun : run = done.flatten ++ rest.flatten := by rw [← h.whole, List.flatten_append]
    cases hrest : rest.flatten with
    | nil => exact .inr (.inl (by rw [hrun, hrest, List.append_nil]))
    | cons c after =>
      rw [hrest] at hrun
      by_cases hnil : done.flatten = []
      · exact .inl hnil
      · exact .inr (.inr ⟨c, after, hrun, (h.begins _ c after hrun hnil).mp hreaches⟩)
  · rintro (rfl | rfl | ⟨c, after, hrun, hbegins⟩)
    · exact reaches_nil words
    · exact ⟨words, List.prefix_rfl, h.whole⟩
    · by_cases hnil : front = []
      · rw [hnil]
        exact reaches_nil words
      · exact (h.begins front c after hrun hnil).mpr hbegins

theorem unique (h : CutsRun run words) (h' : CutsRun run others) : words = others :=
  eq_of_reaches h.nonempty h'.nonempty fun _ => h.reaches_iff.trans h'.reaches_iff.symm

end CutsRun

section State

/-- The state of a reader that has not cut anything. -/
def caseOf (before : List Char) : WordMode :=
  before.foldl WordMode.after .boundary

theorem caseOf_concat (before : List Char) (c : Char) : caseOf (before ++ [c]) = (caseOf before).after c := by
  simp [caseOf]

variable {mode : WordMode} {c : Char}

theorem WordMode.after_of_isLowercase (h : isLowercase c = true) : mode.after c = .lower :=
  if_pos h

theorem WordMode.after_of_isUppercase (h : isUppercase c = true) : mode.after c = .upper := by
  have hlower : ¬ isLowercase c = true := fun hlower => by
    rw [isUppercase_eq_false_of_isLowercase hlower] at h
    cases h
  rw [WordMode.after, if_neg hlower, if_pos h]

theorem caseOf_eq (before : List Char) :
    caseOf before = (nearestCased? before).elim .boundary fun d => if isLowercase d then .lower else .upper := by
  induction before using List.reverseRecOn with
  | nil => rfl
  | append_singleton before c ih =>
    rw [caseOf_concat, nearestCased?, List.reverse_append, List.reverse_singleton, List.singleton_append,
      List.find?_cons]
    cases hlower : isLowercase c with
    | true => simp [WordMode.after, hlower]
    | false =>
      cases hupper : isUppercase c with
      | true => simp [WordMode.after, hlower, hupper]
      | false => simpa [WordMode.after, hlower, hupper, nearestCased?] using ih

theorem beginsWord_iff {before : List Char} {after : List Char} :
    BeginsWord before c after ↔ isUppercase c = true ∧
      (caseOf before = .lower ∨ caseOf before = .upper ∧ ∃ e ∈ after.head?, isLowercase e = true) := by
  rw [BeginsWord, caseOf_eq]
  cases hnearest : nearestCased? before with
  | none => simp
  | some d =>
    have hcased : isLowercase d = true ∨ isUppercase d = true := by
      simpa using List.find?_some (show List.find? _ _ = some d from hnearest)
    cases hlower : isLowercase d with
    | true => simp [hlower]
    | false =>
      have hupper : isUppercase d = true := hcased.resolve_left (by simp [hlower])
      simp [hlower, hupper]

/-- What a reader in a state knows at the next character, after the front of the run and a part of a word:
its state is right as far as it still matters. -/
def Knows (mode : WordMode) (word front run : List Char) : Prop :=
  ∀ c ∈ run.head?, mode.after c = caseOf (front ++ [c])
    ∧ (word = [] → mode ≠ .upper)
    ∧ (word ≠ [] → isUppercase c = true → mode = caseOf front ∧ caseOf front ≠ .lower)

namespace Knows

variable {word front rest : List Char} {next : Char}

theorem start (run : List Char) : Knows .boundary [] [] run := fun _ _ =>
  ⟨rfl, fun _ => nofun, fun h => absurd rfl h⟩

theorem before_capital (front : List Char) (hnext : isUppercase next = true) :
    Knows .boundary [] front (next :: rest) := by
  rintro _ ⟨rfl⟩
  refine ⟨?_, fun _ => nofun, fun h => absurd rfl h⟩
  rw [caseOf_concat, WordMode.after_of_isUppercase hnext, WordMode.after_of_isUppercase hnext]

theorem after_capital (front : List Char) (hword : word ≠ []) (hnext : isLowercase next = true) :
    Knows .boundary word front (next :: rest) := by
  rintro _ ⟨rfl⟩
  refine ⟨?_, fun h => absurd h hword, fun _ h => ?_⟩
  · rw [caseOf_concat, WordMode.after_of_isLowercase hnext, WordMode.after_of_isLowercase hnext]
  · rw [isUppercase_eq_false_of_isLowercase hnext] at h
    cases h

theorem step (h : Knows mode word front (c :: next :: rest))
    (hcut : ¬ (mode.after c = .lower ∧ isUppercase next = true)) :
    Knows (mode.after c) (c :: word) (front ++ [c]) (next :: rest) := by
  have hmode := (h c rfl).1
  rintro _ ⟨rfl⟩
  refine ⟨?_, nofun, fun _ hupper => ⟨hmode, fun hlower => hcut ⟨hmode.trans hlower, hupper⟩⟩⟩
  rw [caseOf_concat (front ++ [c]), hmode]

end Knows

end State

section Cutting

variable {mode : WordMode} {word run : List Char}

theorem cutRun_eq_cons (mode : WordMode) (word : List Char) (hrun : run ≠ []) :
    ∃ more rest, cutRun mode word run = (word.reverse ++ more) :: rest := by
  fun_induction cutRun mode word run with
  | case1 => exact absurd rfl hrun
  | case2 mode word c => exact ⟨[c], [], by simp⟩
  | case3 mode word c next rest _ _ => exact ⟨[c], _, by rw [List.reverse_cons]⟩
  | case4 mode word c next rest _ _ _ => exact ⟨[], _, by rw [List.append_nil]⟩
  | case5 mode word c next rest _ _ ih =>
    obtain ⟨more, others, heq⟩ := ih (List.cons_ne_nil _ _)
    exact ⟨c :: more, others, by rw [heq, List.reverse_cons, List.append_assoc, List.singleton_append]⟩

theorem not_reaches_of_longer {front more : List Char} {words : List (List Char)} (hfront : front ≠ [])
    (hmore : more ≠ []) :
    ¬ Reaches ((front ++ more) :: words) front := by
  rw [reaches_cons]
  rintro (hnil | ⟨rest, hrest, -⟩)
  · exact hfront hnil
  · have hlength := congrArg List.length hrest
    have hpos := List.length_pos_iff.mpr hmore
    simp only [List.length_append] at hlength
    omega

/-- Whether a word that has been started is complete before the next character. -/
theorem reaches_here {front : List Char} {c : Char} {after : List Char} (hknows : Knows mode word front (c :: after))
    (hword : word ≠ []) : Reaches (cutRun mode word (c :: after)) word.reverse ↔ BeginsWord front c after := by
  have hne : word.reverse ≠ [] := by simpa using hword
  have hone : [c] ≠ [] := List.cons_ne_nil _ _
  obtain ⟨-, -, hupper⟩ := hknows c rfl
  rw [beginsWord_iff]
  cases after with
  | nil =>
    rw [cutRun, List.reverse_cons]
    refine iff_of_false (not_reaches_of_longer hne hone) ?_
    rintro ⟨hc, hlower | ⟨-, e, he, -⟩⟩
    · exact (hupper hword hc).2 hlower
    · cases he
  | cons next rest =>
    rw [cutRun]
    split
    · next hcut =>
      rw [List.reverse_cons]
      refine iff_of_false (not_reaches_of_longer hne hone) ?_
      rintro ⟨hc, hlower | ⟨-, e, ⟨rfl⟩, he⟩⟩
      · exact (hupper hword hc).2 hlower
      · rw [isUppercase_eq_false_of_isLowercase he] at hcut
        exact nomatch hcut.2
    split
    · next hcut =>
      obtain ⟨hmode, hc, hnext⟩ := hcut
      refine iff_of_true ?_ ⟨hc, .inr ⟨?_, next, rfl, hnext⟩⟩
      · exact reaches_cons.mpr (.inr ⟨[], (List.append_nil _).symm, reaches_nil _⟩)
      · rw [← (hupper hword hc).1, hmode]
    · next hcut =>
      obtain ⟨more, others, heq⟩ := cutRun_eq_cons (mode.after c) (c :: word) (List.cons_ne_nil next rest)
      rw [heq, List.reverse_cons, List.append_assoc]
      refine iff_of_false (not_reaches_of_longer hne (List.cons_ne_nil _ _)) ?_
      rintro ⟨hc, hlower | ⟨hfront, e, ⟨rfl⟩, he⟩⟩
      · exact (hupper hword hc).2 hlower
      · exact hcut ⟨(hupper hword hc).1.trans hfront, hc, he⟩

theorem reaches_cutRun_iff {front before : List Char} {c : Char} {after : List Char}
    (hknows : Knows mode word front (before ++ c :: after)) (hstarted : word ≠ [] ∨ before ≠ []) :
    Reaches (cutRun mode word (before ++ c :: after)) (word.reverse ++ before)
      ↔ BeginsWord (front ++ before) c after := by
  induction before generalizing mode word front with
  | nil => simpa using reaches_here hknows (hstarted.resolve_right (· rfl))
  | cons d before ih =>
    obtain ⟨next, rest, hrest⟩ :=
      List.exists_cons_of_ne_nil (List.append_ne_nil_of_right_ne_nil before (List.cons_ne_nil c after))
    have hfront : front ++ d :: before = front ++ [d] ++ before := by simp
    have hread : word.reverse ++ d :: before = (d :: word).reverse ++ before := by simp
    rw [List.cons_append, hrest] at hknows ⊢
    rw [hrest] at ih
    rw [hfront, hread, cutRun]
    split
    · next hcut =>
      rw [reaches_cons_append (by simp)]
      by_cases hbefore : before = []
      · subst hbefore
        obtain ⟨rfl, rfl⟩ := List.cons.inj hrest
        refine iff_of_true (reaches_nil _) (beginsWord_iff.mpr ⟨hcut.2, .inl ?_⟩)
        rw [List.append_nil, ← (hknows d rfl).1, hcut.1]
      · exact ih (.before_capital _ hcut.2) (.inr hbefore)
    split
    · next hcut =>
      have hword : word ≠ [] := fun hnil => (hknows d rfl).2.1 hnil hcut.1
      rw [← hread, reaches_cons_append (by simpa using hword)]
      exact ih (.after_capital _ (List.cons_ne_nil d []) hcut.2.2) (.inl (List.cons_ne_nil d []))
    · next hlower _ => exact ih (hknows.step hlower) (.inl (List.cons_ne_nil d word))

theorem cutsRun_cutRun (hrun : run ≠ []) : CutsRun run (cutRun .boundary [] run) where
  whole := by simpa using flatten_cutRun .boundary [] run hrun
  nonempty := by
    intro hmem
    have hstarted : WordMode.boundary = .upper → ([] : List Char) ≠ [] := nofun
    exact ne_nil_of_mem_cutRun hstarted hmem rfl
  begins := by
    rintro before c after rfl hbefore
    simpa using reaches_cutRun_iff (Knows.start _) (.inr hbefore)

end Cutting

theorem pieces_eq_splitOnP (isMark : Char → Bool) (text : List Char) : pieces isMark text = text.splitOnP isMark := by
  induction text with
  | nil => rfl
  | cons c rest ih =>
    rw [pieces, List.splitOnP_cons_eq_if_modifyHead, ← ih]
    split
    · rfl
    · cases hrest : pieces isMark rest with
      | nil => exact absurd hrest (pieces_ne_nil isMark rest)
      | cons piece more => rfl

section Name

variable (name : List Char)

theorem words_eq : words name
    = (((name.splitOnP fun c => !isAlphanumeric c).filter (· ≠ [])).map (cutRun .boundary [])).flatten := by
  rw [words, runs, pieces_eq_splitOnP]
  induction name.splitOnP fun c => !isAlphanumeric c with
  | nil => rfl
  | cons run rest ih =>
    rw [List.flatMap_cons, ih]
    by_cases hrun : run = []
    · simp [hrun, cutRun]
    · simp [hrun]

theorem cutsName_words : CutsName name (words name) := by
  refine ⟨_, List.forall₂_map_right_iff.mpr (List.forall₂_same.mpr fun run hrun => ?_), words_eq name⟩
  have hne : run ≠ [] := by simpa using (List.mem_filter.mp hrun).2
  exact cutsRun_cutRun hne

variable {name} in
theorem CutsName.unique {ws others : List (List Char)} (h : CutsName name ws) (h' : CutsName name others) :
    ws = others := by
  have hcuts : Relator.RightUnique CutsRun := fun _ _ _ => CutsRun.unique
  obtain ⟨cuts, hcut, rfl⟩ := h
  obtain ⟨cuts', hcut', rfl⟩ := h'
  rw [hcuts.forall₂ hcut hcut']

@[simp] theorem flatten_words : (words name).flatten = name.filter isAlphanumeric := by
  have hrun : ∀ run, (cutRun .boundary [] run).flatten = run := by
    intro run
    by_cases hrun : run = []
    · rw [hrun]
      rfl
    · simpa using flatten_cutRun .boundary [] run hrun
  have hcuts : List.flatten ∘ cutRun .boundary [] = id := funext hrun
  have hruns : (runs name).flatten = name.filter isAlphanumeric := by simp [runs]
  rw [words, List.flatMap_def, List.flatten_flatten, List.map_map, hcuts, List.map_id, hruns]

end Name

/-- The name in snake case is made of the words that the rule cuts, and of all that is letter or digit. -/
theorem snakeCase_by_rule (name : String) : ∃ ws, CutsName name.toList ws
    ∧ (∀ others, CutsName name.toList others → others = ws)
    ∧ [] ∉ ws
    ∧ snakeCase name = "_".intercalate (ws.map fun word => String.ofList (word.flatMap toLowercase))
    ∧ ws.flatten = name.toList.filter isAlphanumeric :=
  ⟨words name.toList, cutsName_words _, fun _ h => h.unique (cutsName_words _), fun h => ne_nil_of_mem_words h rfl, rfl,
    flatten_words _⟩

theorem snakeCase_by_rule_acronym :
    CutsName "set-URLs2GoẞTo".toList ["set".toList, "UR".toList, "Ls2".toList, "Go".toList, "ẞ".toList, "To".toList]
      ∧ snakeCase "set-URLs2GoẞTo" = "set_ur_ls2_go_ß_to" := by
  have hwords : words "set-URLs2GoẞTo".toList
      = ["set".toList, "UR".toList, "Ls2".toList, "Go".toList, "ẞ".toList, "To".toList] := by decide +kernel
  obtain ⟨ws, hws, hunique, -, hsnake, -⟩ := snakeCase_by_rule "set-URLs2GoẞTo"
  have heq : ws = words "set-URLs2GoẞTo".toList := (hunique _ (cutsName_words _)).symm
  rw [heq, hwords] at hws hsnake
  rw [hsnake]
  exact ⟨hws, by decide +kernel⟩

end WireSchema.Text
