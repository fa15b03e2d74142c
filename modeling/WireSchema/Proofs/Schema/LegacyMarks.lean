import Mathlib.Data.List.TakeWhile
import WireSchema.Proofs.Json.Mentions
import WireSchema.Schema.Source

/-!
# What the marks of the older format mean

The marks are looked for in the text. Here is what that comes to in terms of
its structure: which strings make a document count as one of the older format,
keys or not, and how its first key has to be spelled. For texts that use no
escapes in their keys, and the two words for keys only, it is what is meant.
What a document is read as when it is not refused is not looked at here.
-/

namespace WireSchema.Schema

set_option autoImplicit false

open Json Unicode

section Search

/-- A word of letters between quotes, as the marks are. -/
def inQuotes (word : List Char) : List Char :=
  '"' :: (word ++ ['"'])

/-- The letters of a mark, without its quotes. -/
structure IsWord (word : List Char) : Prop where
  ne_nil : word ≠ []
  letters : ∀ c ∈ word, c.isAlpha = true

/-- A string ends, as it is spelled, in the word, and that is all of it or comes after a quote. -/
def Bears (word spelling : List Char) : Prop :=
  spelling = word ∨ '\\' :: '"' :: word <:+ spelling

/-- The next character is no letter, if there is one. -/
def NoLetter (rest : List Char) : Prop :=
  ∀ c ∈ rest.head?, c.isAlpha = false

variable {word text rest : List Char}

theorem occursIn_cons_of_ne {c : Char} (hc : c ≠ '"') :
    occursIn (inQuotes word) (c :: rest) = occursIn (inQuotes word) rest := by
  have hne : ('"' == c) = false := beq_eq_false_iff_ne.mpr hc.symm
  simp [occursIn, inQuotes, List.isPrefixOf, hne]

theorem occursIn_append {used : List Char} (h : ∀ c ∈ used, c ≠ '"') :
    occursIn (inQuotes word) (used ++ rest) = occursIn (inQuotes word) rest := by
  induction used with
  | nil => rfl
  | cons c used ih =>
    rw [List.forall_mem_cons] at h
    rw [List.cons_append, occursIn_cons_of_ne h.1, ih h.2]

theorem occursIn_quote :
    occursIn (inQuotes word) ('"' :: rest) = true ↔ word ++ ['"'] <+: rest ∨ occursIn (inQuotes word) rest = true := by
  simp [occursIn, inQuotes]

theorem occursIn_skipGap : occursIn (inQuotes word) (skipGap text) = occursIn (inQuotes word) text := by
  have hgap : ∀ c ∈ text.takeWhile isGap, c ≠ '"' := by
    rintro c hc rfl
    have hquote : isGap '"' = true := List.mem_takeWhile_imp hc
    exact absurd hquote (by decide)
  have hsplit : text.takeWhile isGap ++ skipGap text = text := List.takeWhile_append_dropWhile
  conv => rhs; rw [← hsplit, occursIn_append hgap]

theorem noLetter_of_skipGap (h : NoLetter (skipGap rest)) : NoLetter rest := by
  intro c hc
  obtain ⟨others, rfl⟩ := List.head?_eq_some_iff.mp hc
  by_cases hgap : isGap c = true
  · rcases isGap_cases hgap with rfl | rfl | rfl | rfl <;> decide
  · refine h c ?_
    simp [skipGap, hgap]

theorem noLetter_cons {c : Char} (hc : c.isAlpha = false) : NoLetter (c :: rest) := by
  rintro _ ⟨rfl⟩
  exact hc

/-- The closing quote of a string is not the first of a mark. -/
theorem occursIn_closing (hword : IsWord word) (hrest : NoLetter rest) :
    occursIn (inQuotes word) ('"' :: rest) = true ↔ occursIn (inQuotes word) rest = true := by
  rw [occursIn_quote]
  refine or_iff_right fun h => ?_
  obtain ⟨c, more, rfl⟩ := List.exists_cons_of_ne_nil hword.ne_nil
  obtain ⟨others, rfl⟩ := h
  exact ne_of_class (hword.letters c List.mem_cons_self) (hrest c rfl) rfl

/-- The first quote that is not escaped ends the string. -/
theorem isPrefix_spelling_iff (hquote : '"' ∉ word) (hslash : '\\' ∉ word) {s : List Char} (hs : Escaped s) :
    word ++ ['"'] <+: s ++ '"' :: rest ↔ s = word := by
  induction hs generalizing word with
  | nil =>
    cases word with
    | nil => simp
    | cons d word =>
      have hd : d ≠ '"' := fun h => hquote (by simp [h])
      simp [List.cons_prefix_cons, hd]
  | @plain c s hcquote _ _ ih =>
    cases word with
    | nil => simp [List.cons_prefix_cons, hcquote.symm]
    | cons d word =>
      rw [List.cons_append, List.cons_append, List.cons_prefix_cons, List.cons.injEq,
        ih (fun h => hquote (List.mem_cons_of_mem _ h)) (fun h => hslash (List.mem_cons_of_mem _ h)), eq_comm]
  | @pair e s _ _ _ =>
    cases word with
    | nil => simp [List.cons_prefix_cons]
    | cons d word =>
      have hd : d ≠ '\\' := fun h => hslash (by simp [h])
      simp [List.cons_prefix_cons, hd, hd.symm]

theorem IsWord.notMem (hword : IsWord word) {c : Char} (hc : c.isAlpha = false) : c ∉ word := fun hmem =>
  ne_of_class (hword.letters c hmem) hc rfl

/-- Inside of a string, a mark takes an escaped quote and ends where the string does. -/
theorem occursIn_spelling (hword : IsWord word) {s : List Char} (hs : Escaped s) :
    occursIn (inQuotes word) (s ++ '"' :: rest) = true
      ↔ '\\' :: '"' :: word <:+ s ∨ occursIn (inQuotes word) ('"' :: rest) = true := by
  induction hs with
  | nil => simp
  | @plain c s hcquote hcslash _ ih =>
    rw [List.cons_append, occursIn_cons_of_ne hcquote, ih, List.suffix_cons_iff]
    simp [hcslash.symm]
  | @pair e s he hs ih =>
    rw [List.cons_append, occursIn_cons_of_ne (by decide), List.cons_append]
    by_cases hquote : e = '"'
    · subst hquote
      rw [occursIn_quote, isPrefix_spelling_iff (hword.notMem (by decide)) (hword.notMem (by decide)) hs, ih,
        List.suffix_cons_iff, List.suffix_cons_iff]
      simp [or_assoc, @eq_comm _ s word]
    · rw [occursIn_cons_of_ne hquote, ih, List.suffix_cons_iff, List.suffix_cons_iff]
      have hquoted : s ≠ '"' :: word := by
        rintro rfl
        cases hs with
        | plain h _ _ => exact h rfl
      simp [Ne.symm hquote, hquoted.symm]

theorem occursIn_string (hword : IsWord word) (hrest : NoLetter rest) {s : List Char} (hs : Escaped s) :
    occursIn (inQuotes word) ('"' :: (s ++ '"' :: rest)) = true
      ↔ Bears word s ∨ occursIn (inQuotes word) rest = true := by
  rw [occursIn_quote, isPrefix_spelling_iff (hword.notMem (by decide)) (hword.notMem (by decide)) hs,
    occursIn_spelling hword hs, occursIn_closing hword hrest, Bears, or_assoc]

/-- White space and a character other than a quote. -/
theorem occursIn_of_skipGap {c : Char} {next : List Char} (h : skipGap text = c :: next) (hc : c ≠ '"') :
    occursIn (inQuotes word) text = occursIn (inQuotes word) next := by
  rw [← occursIn_skipGap, h, occursIn_cons_of_ne hc]

theorem noLetter_of_skipGap_eq {c : Char} {next : List Char} (h : skipGap text = c :: next) (hc : c.isAlpha = false) :
    NoLetter text :=
  noLetter_of_skipGap (h ▸ noLetter_cons hc)

theorem occursIn_of_opens (hword : IsWord word) {m : Mention} {next : List Char} (h : m.Opens text next) :
    occursIn (inQuotes word) text = true ↔ Bears word m.spelling ∨ occursIn (inQuotes word) next = true := by
  obtain ⟨-, colon, hskip, hcolon⟩ := h
  rw [← occursIn_skipGap, hskip, occursIn_string hword (noLetter_of_skipGap_eq hcolon (by decide)) m.spells.escaped,
    occursIn_of_skipGap hcolon (by decide)]

/-- A mark is found in what is written exactly where a string is spelled with it, or after all of that. -/
theorem occursIn_of_writes (hword : IsWord word) {piece : Piece} {ms : List Mention} (h : Writes piece ms text rest)
    (hrest : NoLetter rest) :
    occursIn (inQuotes word) text = true
      ↔ (∃ m ∈ ms, Bears word m.spelling) ∨ occursIn (inQuotes word) rest = true := by
  induction h with
  | atom _ hskip hc hpasses =>
    obtain ⟨used, rfl, hused⟩ := hpasses
    rw [occursIn_of_skipGap hskip (ne_of_class hc rfl), occursIn_append fun c hc => ne_of_class (hused c hc) rfl]
    simp
  | @str m _ _ _ hskip =>
    rw [← occursIn_skipGap, hskip, occursIn_string hword hrest m.spells.escaped]
    simp
  | emptyArr hopen hclose =>
    rw [occursIn_of_skipGap hopen (by decide), occursIn_of_skipGap hclose (by decide)]
    simp
  | arr hopen _ ih => rw [occursIn_of_skipGap hopen (by decide), ← occursIn_skipGap, ih hrest]
  | emptyObj hopen hclose =>
    rw [occursIn_of_skipGap hopen (by decide), occursIn_of_skipGap hclose (by decide)]
    simp
  | obj hopen _ ih => rw [occursIn_of_skipGap hopen (by decide), ← occursIn_skipGap, ih hrest]
  | lastItem _ hclose ih =>
    rw [ih (noLetter_of_skipGap_eq hclose (by decide)), occursIn_of_skipGap hclose (by decide)]
  | item _ hcomma _ ih ih' =>
    rw [ih (noLetter_of_skipGap_eq hcomma (by decide)), occursIn_of_skipGap hcomma (by decide), ih' hrest]
    simp [or_and_right, exists_or, or_assoc]
  | lastMember hopens _ hclose ih =>
    rw [occursIn_of_opens hword hopens, ih (noLetter_of_skipGap_eq hclose (by decide)),
      occursIn_of_skipGap hclose (by decide)]
    simp [or_assoc]
  | member hopens _ hcomma _ ih ih' =>
    rw [occursIn_of_opens hword hopens, ih (noLetter_of_skipGap_eq hcomma (by decide)),
      occursIn_of_skipGap hcomma (by decide), ih' hrest]
    simp [or_and_right, exists_or, or_assoc]

theorem occursIn_of_isText (hword : IsWord word) {json : Json} {ms : List Mention} (h : IsText json ms text) :
    occursIn (inQuotes word) text = true ↔ ∃ m ∈ ms, Bears word m.spelling := by
  obtain ⟨rest, hwrites, hrest⟩ := h
  have hletter : NoLetter rest := noLetter_of_skipGap (by rw [hrest]; exact nofun)
  have hnone : occursIn (inQuotes word) rest = false := by
    rw [← occursIn_skipGap, hrest]
    rfl
  rw [occursIn_of_writes hword hwrites hletter, hnone]
  simp

end Search

section Envelope

/-- A text without its white space. -/
def withoutBlanks (text : List Char) : List Char :=
  text.filter fun c => !isBlank c

theorem withoutBlanks_cons {c : Char} (hc : isBlank c = false) (text : List Char) :
    withoutBlanks (c :: text) = c :: withoutBlanks text :=
  List.filter_cons_of_pos (by simp [hc])

theorem withoutBlanks_skipGap (text : List Char) : withoutBlanks (skipGap text) = withoutBlanks text := by
  induction text with
  | nil => rfl
  | cons c text ih =>
    by_cases hgap : isGap c = true
    · have hblank : isBlank c = true := isBlank_of_isGap hgap
      rw [skipGap, List.dropWhile_cons_of_pos hgap, ← skipGap, ih, withoutBlanks, withoutBlanks,
        List.filter_cons_of_neg (by simp [hblank])]
    · rw [skipGap, List.dropWhile_cons_of_neg hgap]

theorem withoutBlanks_of_skipGap {text next : List Char} {c : Char} (h : skipGap text = c :: next)
    (hc : isBlank c = false) : withoutBlanks text = c :: withoutBlanks next := by
  rw [← withoutBlanks_skipGap, h, withoutBlanks_cons hc]

theorem escaped_withoutBlanks {s : List Char} (h : Escaped s) : Escaped (withoutBlanks s) := by
  induction h with
  | nil => exact .nil
  | @plain c s hquote hslash _ ih =>
    by_cases hblank : isBlank c = false
    · rw [withoutBlanks_cons hblank]
      exact .plain hquote hslash ih
    · rwa [withoutBlanks, List.filter_cons_of_neg (by simpa using hblank)]
  | pair he _ ih =>
    rw [withoutBlanks_cons (by decide), withoutBlanks_cons he]
    exact .pair he ih

/-- An object has no string, or its first key is the first. -/
theorem opens_of_writes_obj {entries : List (String × Json)} {ms : List Mention} {text rest : List Char}
    (h : Writes (.value (.obj entries)) ms text rest) : ∃ next, skipGap text = '\x7b' :: next
      ∧ ((ms = [] ∧ ∃ after, skipGap next = '\x7d' :: after)
        ∨ ∃ m more after, ms = m :: more ∧ m.Opens (skipGap next) after) := by
  generalize hpiece : Piece.value (.obj entries) = piece at h
  cases h with
  | atom hatom =>
    cases hpiece
    cases hatom
  | emptyObj hopen hclose => exact ⟨_, hopen, .inl ⟨rfl, _, hclose⟩⟩
  | @obj _ _ _ next _ hopen hmembers =>
    refine ⟨next, hopen, .inr ?_⟩
    cases hmembers with
    | lastMember hopens => exact ⟨_, _, _, rfl, hopens⟩
    | member hopens => exact ⟨_, _, _, rfl, hopens⟩
  | _ => cases hpiece

theorem isPrefix_envelope_iff {entries : List (String × Json)} {ms : List Mention} {text : List Char}
    (h : IsText (.obj entries) ms text) :
    envelopeOpening <+: withoutBlanks text ↔ ∃ m ∈ ms.head?, withoutBlanks m.spelling = "version".toList := by
  have hopening : envelopeOpening = '\x7b' :: '"' :: ("version".toList ++ ['"'] ++ [':']) := by decide
  obtain ⟨rest, hwrites, -⟩ := h
  obtain ⟨next, hopen, ⟨rfl, after, hclose⟩ | ⟨m, more, after, rfl, -, colon, hskip, hcolon⟩⟩ :=
    opens_of_writes_obj hwrites
  · rw [withoutBlanks_of_skipGap hopen (by decide), withoutBlanks_of_skipGap hclose (by decide), hopening]
    simp [List.cons_prefix_cons]
  · have hkey : withoutBlanks (m.spelling ++ '"' :: colon)
        = withoutBlanks m.spelling ++ '"' :: ':' :: withoutBlanks after := by
      rw [withoutBlanks, List.filter_append, ← withoutBlanks, ← withoutBlanks, withoutBlanks_cons (by decide),
        withoutBlanks_of_skipGap hcolon (by decide)]
    have hversion : "version".toList ++ ['"'] <+: withoutBlanks m.spelling ++ '"' :: ':' :: withoutBlanks after
        ↔ withoutBlanks m.spelling = "version".toList :=
      isPrefix_spelling_iff (by decide) (by decide) (escaped_withoutBlanks m.spells.escaped)
    rw [withoutBlanks_of_skipGap hopen (by decide), ← withoutBlanks_skipGap, withoutBlanks_of_skipGap hskip (by decide),
      hopening, List.cons_prefix_cons, List.cons_prefix_cons, hkey]
    constructor
    · rintro ⟨-, -, hprefix⟩
      exact ⟨m, rfl, hversion.mp ((List.prefix_append _ _).trans hprefix)⟩
    · rintro ⟨_, ⟨rfl⟩, hspelling⟩
      refine ⟨rfl, rfl, ?_⟩
      rw [hspelling]
      exact ⟨withoutBlanks after, by simp⟩

end Envelope

section Refusal

/-- A document is refused as one of the older format. -/
def Refused (text : String) : Prop :=
  ∃ marker, Document.ofText text = .error (.legacy marker)

/-- The strings that make a document count as one of the older format, by their spelling. -/
def BearsMarks (ms : List Mention) : Prop :=
  (∃ m ∈ ms, Bears "isMut".toList m.spelling ∨ Bears "isSigner".toList m.spelling)
    ∨ ∃ m ∈ ms.head?, withoutBlanks m.spelling = "version".toList

/-- The keys that documents of the older format have. -/
def HasLegacyKeys (ms : List Mention) : Prop :=
  (∃ m ∈ ms, m.isKey = true ∧ (m.text = "isMut" ∨ m.text = "isSigner")) ∨ ∃ m ∈ ms.head?, m.text = "version"

/-- Keys are spelled without escapes, the first also without white space, and the words of the older format are
no values. -/
structure PlainlyWritten (ms : List Mention) : Prop where
  key : ∀ m ∈ ms, m.isKey = true → '\\' ∉ m.spelling
  first : ∀ m ∈ ms.head?, withoutBlanks m.spelling = m.spelling
  value : ∀ m ∈ ms, m.isKey = false → ¬ Bears "isMut".toList m.spelling ∧ ¬ Bears "isSigner".toList m.spelling

theorem refused_iff (text : String) : Refused text ↔ (legacyMarker? text).isSome = true := by
  unfold Refused Document.ofText
  cases legacyMarker? text with
  | some marker => exact iff_of_true ⟨marker, rfl⟩ rfl
  | none =>
    refine iff_of_false ?_ nofun
    rintro ⟨marker, h⟩
    rcases Step.error_of_bind h with hjson | ⟨json, -, hread⟩
    · obtain ⟨fault, -, hfault⟩ := Step.error_of_mapError hjson
      cases hfault
    · unfold Document.ofJson at hread
      split at hread
      · obtain ⟨fault, -, hfault⟩ := Step.error_of_mapError hread
        cases hfault
      · cases hread

variable {text : String} {entries : List (String × Json)} {ms : List Mention}

theorem legacyMarker?_isSome_iff (text : String) : (legacyMarker? text).isSome = true
    ↔ occursIn (inQuotes "isMut".toList) text.toList = true ∨ occursIn (inQuotes "isSigner".toList) text.toList = true
      ∨ envelopeOpening <+: withoutBlanks text.toList := by
  have hmut : "\"isMut\"".toList = inQuotes "isMut".toList := by decide
  have hsigner : "\"isSigner\"".toList = inQuotes "isSigner".toList := by decide
  unfold legacyMarker?
  dsimp only
  rw [hmut, hsigner, ← List.isPrefixOf_iff_prefix, withoutBlanks]
  split
  · next h => exact iff_of_true rfl (.inl h)
  split
  · next h => exact iff_of_true rfl (.inr (.inl h))
  split
  · next h => exact iff_of_true rfl (.inr (.inr h))
  · next hmut hsigner hversion => exact iff_of_false nofun (not_or.mpr ⟨hmut, not_or.mpr ⟨hsigner, hversion⟩⟩)

/-- A document is refused where one of its strings is spelled like a mark, or its first key is. -/
theorem refused_iff_bearsMarks (h : IsText (.obj entries) ms text.toList) : Refused text ↔ BearsMarks ms := by
  have hmut : IsWord "isMut".toList := ⟨by decide, List.all_eq_true.mp (by decide)⟩
  have hsigner : IsWord "isSigner".toList := ⟨by decide, List.all_eq_true.mp (by decide)⟩
  rw [refused_iff, legacyMarker?_isSome_iff, occursIn_of_isText hmut h, occursIn_of_isText hsigner h,
    isPrefix_envelope_iff h, BearsMarks]
  simp only [and_or_left, exists_or, or_assoc]

theorem bears_iff {m : Mention} (word : String) (hm : '\\' ∉ m.spelling) :
    Bears word.toList m.spelling ↔ m.text = word := by
  have hspelling : m.spelling = m.text.toList := m.spells.eq_of_notMem hm
  have hsuffix : ¬ '\\' :: '"' :: word.toList <:+ m.spelling := fun h => hm (h.mem List.mem_cons_self)
  rw [Bears, or_iff_left hsuffix, hspelling, String.toList_inj]

/-- The first string of an object is a key. -/
theorem isKey_of_head {m : Mention} (h : IsText (.obj entries) ms text.toList) (hm : m ∈ ms.head?) :
    m.isKey = true := by
  obtain ⟨rest, hwrites, -⟩ := h
  obtain ⟨next, -, ⟨rfl, -⟩ | ⟨first, more, after, rfl, hkey, -⟩⟩ := opens_of_writes_obj hwrites
  · cases hm
  · cases hm
    exact hkey

theorem bearsMarks_iff (h : IsText (.obj entries) ms text.toList) (hplain : PlainlyWritten ms) :
    BearsMarks ms ↔ HasLegacyKeys ms := by
  refine or_congr (exists_congr fun m => and_congr_right fun hm => ?_)
    (exists_congr fun m => and_congr_right fun hm => ?_)
  · cases hkey : m.isKey with
    | true =>
      rw [bears_iff "isMut" (hplain.key m hm hkey), bears_iff "isSigner" (hplain.key m hm hkey)]
      exact (and_iff_right rfl).symm
    | false =>
      obtain ⟨hmut, hsigner⟩ := hplain.value m hm hkey
      exact iff_of_false (not_or.mpr ⟨hmut, hsigner⟩) nofun
  · have hspelling : m.spelling = m.text.toList :=
      m.spells.eq_of_notMem (hplain.key m (List.mem_of_head? hm) (isKey_of_head h hm))
    rw [hplain.first m hm, hspelling, String.toList_inj]

/-- What refuses a document that can be read is how its strings are spelled, keys or not. Where keys are spelled
plainly and the words are no values, it is its keys alone. -/
theorem Document.legacy_iff_spelled (text : String) :
    (∀ json, Json.ofText text = .ok json → ∃ ms, IsText json ms text.toList)
      ∧ ∀ entries ms, IsText (.obj entries) ms text.toList →
        (Refused text ↔ BearsMarks ms) ∧ (PlainlyWritten ms → (Refused text ↔ HasLegacyKeys ms)) :=
  ⟨fun _ hread => exists_isText hread, fun _ _ htext =>
    ⟨refused_iff_bearsMarks htext, fun hplain => (refused_iff_bearsMarks htext).trans (bearsMarks_iff htext hplain)⟩⟩

theorem Document.legacy_iff_spelled_key :
    let key := Mention.plain true "isMut" (by decide) (by decide)
    (∃ json, Json.ofText "\x7b\"isMut\":true\x7d" = .ok json)
      ∧ IsText (.obj [("isMut", .bool true)]) [key] "\x7b\"isMut\":true\x7d".toList
      ∧ PlainlyWritten [key] ∧ HasLegacyKeys [key] ∧ Refused "\x7b\"isMut\":true\x7d" := by
  intro key
  have htext : IsText (.obj [("isMut", .bool true)]) [key] "\x7b\"isMut\":true\x7d".toList :=
    isText_oneMember key rfl writes_true
  have hplain : PlainlyWritten [key] := ⟨by decide, by decide, by simp [key, Mention.plain]⟩
  have hkeys : HasLegacyKeys [key] := .inl ⟨key, List.mem_cons_self, rfl, .inl rfl⟩
  have hrefused := (((Document.legacy_iff_spelled _).2 _ _ htext).2 hplain).mpr hkeys
  exact ⟨Step.exists_of_isOk (by decide +kernel), htext, hplain, hkeys, hrefused⟩

/-- A text that can be read as an object, whose keys do not say whether it is refused. -/
def Misjudged (text : String) : Prop :=
  (∃ json, Json.ofText text = .ok json)
    ∧ ∃ entries ms, IsText (.obj entries) ms text.toList ∧ ¬ (Refused text ↔ HasLegacyKeys ms)

/-- A mark as a value, a key written with an escape, and white space in the first key. -/
theorem Document.legacy_misjudged : Misjudged "\x7b\"docs\":\"isMut\"\x7d" ∧ Misjudged "\x7b\"is\\u004dut\":true\x7d"
    ∧ Misjudged "\x7b\"ver sion\":true\x7d" := by
  refine ⟨⟨Step.exists_of_isOk (by decide +kernel), ?_⟩, ⟨Step.exists_of_isOk (by decide +kernel), ?_⟩,
    ⟨Step.exists_of_isOk (by decide +kernel), ?_⟩⟩
  · let key := Mention.plain true "docs" (by decide) (by decide)
    let value := Mention.plain false "isMut" (by decide) (by decide)
    have hkeys : ¬ HasLegacyKeys [key, value] := by simp [HasLegacyKeys, key, value, Mention.plain]
    refine ⟨[("docs", .str "isMut")], [key, value], ?_, fun h => hkeys (h.mp ((refused_iff _).mpr (by decide)))⟩
    exact isText_oneMember key rfl (.str (m := value) rfl (by rfl))
  · have hunit : Spells "\\u004dut".toList "Mut".toList := .unit (by decide) (.refl (by decide) (by decide))
    have hspells : Spells "is\\u004dut".toList "isMut".toList :=
      .plain (by decide) (by decide) (.plain (by decide) (by decide) hunit)
    let key : Mention := ⟨true, _, _, hspells⟩
    have hkeys : HasLegacyKeys [key] := .inl ⟨key, List.mem_cons_self, rfl, .inl rfl⟩
    refine ⟨[("isMut", .bool true)], [key], isText_oneMember key rfl writes_true, fun h => ?_⟩
    exact absurd ((refused_iff _).mp (h.mpr hkeys)) (by decide)
  · let key := Mention.plain true "ver sion" (by decide) (by decide)
    have hkeys : ¬ HasLegacyKeys [key] := by simp [HasLegacyKeys, key, Mention.plain]
    refine ⟨[("ver sion", .bool true)], [key], isText_oneMember key rfl writes_true, fun h => ?_⟩
    exact hkeys (h.mp ((refused_iff _).mpr (by decide)))

end Refusal

end WireSchema.Schema
