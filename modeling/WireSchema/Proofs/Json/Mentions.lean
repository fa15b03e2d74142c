import WireSchema.Proofs.Json.Strings

/-!
# The strings of a text

A text that can be read has a structure: where its strings stand, how they are
spelled, and which of them are keys. The structure is a relation between what
is read, the strings in their order, and the text. How numbers and keywords are
written is not looked at, as there is no string in them.
-/

namespace WireSchema.Json

set_option autoImplicit false

section Characters

variable {c : Char}

theorem ne_of_class {p : Char → Bool} {other : Char} (hc : p c = true) (hother : p other = false) : c ≠ other := by
  rintro rfl
  rw [hc] at hother
  cases hother

theorem isGap_cases (h : isGap c = true) : c = ' ' ∨ c = '\n' ∨ c = '\t' ∨ c = '\r' := by
  simpa [isGap, or_assoc] using h

/-- The blanks between the parts of a text are white space. -/
theorem isBlank_of_isGap (h : isGap c = true) : Unicode.isBlank c = true := by
  rcases isGap_cases h with rfl | rfl | rfl | rfl <;> decide

end Characters

section Atoms

/-- A character of a number or of a keyword. -/
def isAtomChar (c : Char) : Bool :=
  c.isAlphanum || c = '+' || c = '-' || c = '.'

/-- A number or a keyword. -/
def isAtom : Json → Bool
  | .null | .bool _ | .int _ | .float _ => true
  | .str _ | .arr _ | .obj _ => false

/-- Nothing but characters of a number or a keyword is read before the rest. -/
def Passes (text rest : List Char) : Prop :=
  ∃ used, text = used ++ rest ∧ ∀ c ∈ used, isAtomChar c = true

variable {text mid rest : List Char} {c : Char}

theorem Passes.refl (text : List Char) : Passes text text :=
  ⟨[], rfl, nofun⟩

theorem Passes.cons (hc : isAtomChar c = true) (h : Passes text rest) : Passes (c :: text) rest := by
  obtain ⟨used, rfl, hused⟩ := h
  exact ⟨c :: used, rfl, List.forall_mem_cons.mpr ⟨hc, hused⟩⟩

theorem Passes.trans (h : Passes text mid) (h' : Passes mid rest) : Passes text rest := by
  obtain ⟨used, rfl, hused⟩ := h
  obtain ⟨used', rfl, hused'⟩ := h'
  exact ⟨used ++ used', by simp, List.forall_mem_append.mpr ⟨hused, hused'⟩⟩

theorem passes_of_keywordOf {word : List Char} (hword : ∀ c ∈ word, isAtomChar c = true)
    (h : keywordOf word text = .ok rest) : Passes text rest := by
  fun_induction keywordOf word text with
  | case1 =>
    cases h
    exact .refl _
  | case2 => cases h
  | case3 c word others ih =>
    rw [List.forall_mem_cons] at hword
    exact (ih hword.2 h).cons hword.1
  | case4 => cases h

theorem isAtomChar_of_digit? {d : Nat} (h : digit? c = some d) : isAtomChar c = true := by
  unfold digit? at h
  split at h
  · next hc =>
    have hdigit : c.isDigit = true := by
      simp only [Char.isDigit, Bool.and_eq_true, decide_eq_true_eq]
      exact hc
    simp [isAtomChar, Char.isAlphanum, hdigit]
  · cases h

theorem passes_digitsOf (text : List Char) : Passes text (digitsOf text).2 := by
  induction text with
  | nil => exact .refl []
  | cons c others ih =>
    rw [digitsOf]
    split
    · next d hd => exact ih.cons (isAtomChar_of_digit? hd)
    · exact .refl _

theorem digitsOf_of_digitsOf1 {found : List Nat × List Char} (h : digitsOf1 text = .ok found) :
    digitsOf text = found := by
  unfold digitsOf1 at h
  split at h
  · cases h
  · cases h
  · exact Except.ok.inj h

theorem passes_of_digitsOf1 {digits : List Nat} (h : digitsOf1 text = .ok (digits, rest)) : Passes text rest := by
  have hpasses := passes_digitsOf text
  rwa [digitsOf_of_digitsOf1 h] at hpasses

theorem digitsOf_of_wholeOf {found : List Nat × List Char} (h : wholeOf text = .ok found) : digitsOf text = found := by
  obtain ⟨⟨digits, after⟩, hdigits, h⟩ := Step.ok_of_bind h
  dsimp only at h
  split at h <;> cases h
  exact digitsOf_of_digitsOf1 hdigits

theorem passes_of_fractionOf {fraction : Option (List Nat)} (h : fractionOf text = .ok (fraction, rest)) :
    Passes text rest := by
  unfold fractionOf at h
  split at h
  · obtain ⟨⟨digits, after⟩, hdigits, h⟩ := Step.ok_of_bind h
    cases h
    exact (passes_of_digitsOf1 hdigits).cons (by decide)
  · cases h
    exact .refl _

theorem passes_of_exponentOf {exponent : Option (Bool × List Nat)} (h : exponentOf text = .ok (exponent, rest)) :
    Passes text rest := by
  unfold exponentOf at h
  dsimp only at h
  split at h
  iterate 2
    · obtain ⟨⟨digits, after⟩, hdigits, h⟩ := Step.ok_of_bind h
      cases h
      have hpasses := passes_of_digitsOf1 hdigits
      refine .cons (by decide) ?_
      split at hpasses
      · exact hpasses.cons (by decide)
      · exact hpasses.cons (by decide)
      · exact hpasses
  · cases h
    exact .refl _

theorem passes_of_numberOf {negative : Bool} {json : Json} (h : numberOf negative text = .ok (json, rest)) :
    isAtom json = true ∧ Passes (digitsOf text).2 rest := by
  obtain ⟨⟨parts, after⟩, hparts, h⟩ := Step.ok_of_bind h
  obtain ⟨value, hvalue, h⟩ := Step.ok_of_bind h
  cases h
  obtain ⟨⟨whole, afterWhole⟩, hwhole, hparts⟩ := Step.ok_of_bind hparts
  obtain ⟨⟨fraction, afterFraction⟩, hfraction, hparts⟩ := Step.ok_of_bind hparts
  obtain ⟨⟨exponent, afterExponent⟩, hexponent, hparts⟩ := Step.ok_of_bind hparts
  cases hparts
  rw [digitsOf_of_wholeOf hwhole]
  refine ⟨?_, (passes_of_fractionOf hfraction).trans (passes_of_exponentOf hexponent)⟩
  unfold NumberText.value at hvalue
  dsimp only at hvalue
  split at hvalue
  · split at hvalue
    · cases hvalue
      rfl
    split at hvalue <;> cases hvalue <;> rfl
  · split at hvalue <;> cases hvalue
    rfl

end Atoms

section Values

/-- A string as a text has it. -/
structure Mention where
  /-- It is the key of a member, and not a value. -/
  isKey : Bool
  spelling : List Char
  text : String
  spells : Spells spelling text.toList

/-- A string spelled as it is. -/
def Mention.plain (isKey : Bool) (text : String) (hquote : '"' ∉ text.toList) (hslash : '\\' ∉ text.toList) : Mention :=
  ⟨isKey, text.toList, text, .refl hquote hslash⟩

/-- What a stretch of text can be: a value, or what is behind an opening bracket up to the closing one. -/
inductive Piece where
  | value (json : Json)
  | items (items : List Json)
  | members (entries : List (String × Json))

/-- A key stands here, and a colon behind it. -/
def Mention.Opens (m : Mention) (text next : List Char) : Prop :=
  m.isKey = true ∧ ∃ colon, skipGap text = '"' :: (m.spelling ++ '"' :: colon) ∧ skipGap colon = ':' :: next

/-- The text begins with the part, in which these strings stand, and goes on with the rest. -/
inductive Writes : Piece → List Mention → List Char → List Char → Prop where
  | atom {json : Json} {c : Char} {text next rest : List Char} : isAtom json = true → skipGap text = c :: next →
      isAtomChar c = true → Passes next rest → Writes (.value json) [] text rest
  | str {m : Mention} {text rest : List Char} : m.isKey = false → skipGap text = '"' :: (m.spelling ++ '"' :: rest) →
      Writes (.value (.str m.text)) [m] text rest
  | emptyArr {text next rest : List Char} : skipGap text = '[' :: next → skipGap next = ']' :: rest →
      Writes (.value (.arr [])) [] text rest
  | arr {items : List Json} {ms : List Mention} {text next rest : List Char} : skipGap text = '[' :: next →
      Writes (.items items) ms (skipGap next) rest → Writes (.value (.arr items)) ms text rest
  | emptyObj {text next rest : List Char} : skipGap text = '\x7b' :: next → skipGap next = '\x7d' :: rest →
      Writes (.value (.obj [])) [] text rest
  | obj {entries : List (String × Json)} {ms : List Mention} {text next rest : List Char} :
      skipGap text = '\x7b' :: next → Writes (.members entries) ms (skipGap next) rest →
      Writes (.value (ofEntries entries)) ms text rest
  | lastItem {item : Json} {ms : List Mention} {text after rest : List Char} : Writes (.value item) ms text after →
      skipGap after = ']' :: rest → Writes (.items [item]) ms text rest
  | item {first : Json} {items : List Json} {ms more : List Mention} {text after next rest : List Char} :
      Writes (.value first) ms text after → skipGap after = ',' :: next → Writes (.items items) more next rest →
      Writes (.items (first :: items)) (ms ++ more) text rest
  | lastMember {m : Mention} {json : Json} {ms : List Mention} {text next after rest : List Char} :
      m.Opens text next → Writes (.value json) ms next after → skipGap after = '\x7d' :: rest →
      Writes (.members [(m.text, json)]) (m :: ms) text rest
  | member {m : Mention} {json : Json} {entries : List (String × Json)} {ms more : List Mention}
      {text next after others rest : List Char} :
      m.Opens text next → Writes (.value json) ms next after → skipGap after = ',' :: others →
      Writes (.members entries) more others rest →
      Writes (.members ((m.text, json) :: entries)) (m :: (ms ++ more)) text rest

/-- The whole text is a value with these strings; there is nothing but blanks behind it. -/
def IsText (json : Json) (ms : List Mention) (text : List Char) : Prop :=
  ∃ rest, Writes (.value json) ms text rest ∧ skipGap rest = []

theorem isText_oneMember (m : Mention) {json : Json} {ms : List Mention} {rest : List Char} (hm : m.isKey = true)
    (h : Writes (.value json) ms rest ['\x7d']) :
    IsText (.obj [(m.text, json)]) (m :: ms) ('\x7b' :: '"' :: (m.spelling ++ '"' :: ':' :: rest)) :=
  ⟨[], .obj rfl (.lastMember ⟨hm, _, rfl, rfl⟩ h rfl), rfl⟩

theorem writes_true : Writes (.value (.bool true)) [] "true\x7d".toList ['\x7d'] :=
  .atom rfl (by rfl) (by decide) ⟨"rue".toList, by rfl, List.all_eq_true.mp (by decide)⟩

variable {text rest : List Char}

theorem mention_of_stringOf {found : String} (isKey : Bool) (h : stringOf text = .ok (found, rest)) :
    ∃ m : Mention, m.isKey = isKey ∧ m.text = found ∧ text = m.spelling ++ '"' :: rest := by
  obtain ⟨s, t, hspells, -, htext, hfound⟩ := spells_of_stringFrom h
  rw [List.reverse_nil, List.nil_append] at hfound
  exact ⟨⟨isKey, s, found, hfound ▸ hspells⟩, rfl, rfl, htext⟩

theorem separationOf_eq_ok {close : Char} {separation : Separation} (h : separationOf close text = .ok separation) :
    (∃ rest, skipGap text = close :: rest ∧ separation = .closed rest)
      ∨ ∃ rest, skipGap text = ',' :: rest ∧ separation = .more rest := by
  unfold separationOf at h
  split at h
  · cases h
  next c rest hskip =>
  split at h
  · next hclose =>
    cases h
    exact .inl ⟨rest, by rw [hskip, hclose], rfl⟩
  split at h
  · next hcomma =>
    cases h
    exact .inr ⟨rest, by rw [hskip, hcomma], rfl⟩
  · cases h

/-- All that is read with so much fuel is written in the text. -/
structure ReadsWritten (fuel : Nat) : Prop where
  value : ∀ {levels text json rest}, valueOf fuel levels text = .ok (json, rest) →
    ∃ ms, Writes (.value json) ms text rest
  items : ∀ {levels text items rest}, itemsOf fuel levels text = .ok (items, rest) →
    ∃ ms, Writes (.items items) ms text rest
  members : ∀ {levels text entries rest}, entriesOf fuel levels text = .ok (entries, rest) →
    ∃ ms, Writes (.members entries) ms text rest

theorem writes_keyword {json : Json} {c : Char} {word next : List Char} (hjson : isAtom json = true)
    (hword : ∀ c ∈ word, isAtomChar c = true) (hc : isAtomChar c = true) (hskip : skipGap text = c :: next)
    {read : Json × List Char} (h : (do return (json, ← keywordOf word next)) = Except.ok read) :
    ∃ ms, Writes (.value read.1) ms text read.2 := by
  obtain ⟨after, hafter, h⟩ := Step.ok_of_bind h
  cases h
  exact ⟨[], .atom hjson hskip hc (passes_of_keywordOf hword hafter)⟩

section Step

variable {fuel levels : Nat}

theorem ReadsWritten.valueOf_succ (hread : ReadsWritten fuel) {json : Json}
    (h : valueOf (fuel + 1) levels text = .ok (json, rest)) : ∃ ms, Writes (.value json) ms text rest := by
  rw [valueOf] at h
  split at h
  · cases h
  next c next hskip =>
  split at h
  · next hc => exact writes_keyword rfl (List.all_eq_true.mp rfl) (by rw [hc]; decide) hskip h
  split at h
  · next hc => exact writes_keyword rfl (List.all_eq_true.mp rfl) (by rw [hc]; decide) hskip h
  split at h
  · next hc => exact writes_keyword rfl (List.all_eq_true.mp rfl) (by rw [hc]; decide) hskip h
  split at h
  · next hc =>
    obtain ⟨hatom, hpasses⟩ := passes_of_numberOf h
    exact ⟨[], .atom hatom hskip (by rw [hc]; decide) ((passes_digitsOf next).trans hpasses)⟩
  split at h
  · next hc =>
    obtain ⟨d, hd⟩ := Option.isSome_iff_exists.mp hc
    obtain ⟨hatom, hpasses⟩ := passes_of_numberOf h
    rw [digitsOf, hd] at hpasses
    exact ⟨[], .atom hatom hskip (isAtomChar_of_digit? hd) ((passes_digitsOf next).trans hpasses)⟩
  split at h
  · next hc =>
    obtain ⟨⟨found, after⟩, hfound, h⟩ := Step.ok_of_bind h
    cases h
    obtain ⟨m, hkey, rfl, hnext⟩ := mention_of_stringOf false hfound
    exact ⟨[m], .str hkey (by rw [hskip, hc, hnext])⟩
  split at h
  · next hc =>
    rw [hc] at hskip
    split at h
    · cases h
    · next hclose =>
      cases h
      exact ⟨[], .emptyArr hskip hclose⟩
    · obtain ⟨⟨items, after⟩, hitems, h⟩ := Step.ok_of_bind h
      cases h
      obtain ⟨ms, hms⟩ := hread.items hitems
      exact ⟨ms, .arr hskip hms⟩
  split at h
  · next hc =>
    rw [hc] at hskip
    split at h
    · cases h
    · next hclose =>
      cases h
      exact ⟨[], .emptyObj hskip hclose⟩
    · obtain ⟨⟨entries, after⟩, hentries, h⟩ := Step.ok_of_bind h
      cases h
      obtain ⟨ms, hms⟩ := hread.members hentries
      exact ⟨ms, .obj hskip hms⟩
  · cases h

theorem ReadsWritten.itemsOf_succ (hread : ReadsWritten fuel) {items : List Json}
    (h : itemsOf (fuel + 1) levels text = .ok (items, rest)) : ∃ ms, Writes (.items items) ms text rest := by
  rw [itemsOf] at h
  obtain ⟨⟨item, after⟩, hitem, h⟩ := Step.ok_of_bind h
  obtain ⟨separation, hseparation, h⟩ := Step.ok_of_bind h
  obtain ⟨ms, hms⟩ := hread.value hitem
  rcases separationOf_eq_ok hseparation with ⟨next, hclose, rfl⟩ | ⟨next, hcomma, rfl⟩
  · cases h
    exact ⟨ms, .lastItem hms hclose⟩
  · obtain ⟨⟨others, final⟩, hothers, h⟩ := Step.ok_of_bind h
    cases h
    obtain ⟨more, hmore⟩ := hread.items hothers
    exact ⟨ms ++ more, .item hms hcomma hmore⟩

theorem ReadsWritten.entriesOf_succ (hread : ReadsWritten fuel) {entries : List (String × Json)}
    (h : entriesOf (fuel + 1) levels text = .ok (entries, rest)) : ∃ ms, Writes (.members entries) ms text rest := by
  rw [entriesOf] at h
  split at h
  · cases h
  · next after hskip =>
    obtain ⟨⟨key, colon⟩, hkey, h⟩ := Step.ok_of_bind h
    obtain ⟨m, hiskey, rfl, hafter⟩ := mention_of_stringOf true hkey
    dsimp only at h
    split at h
    · cases h
    · next next hcolon =>
      have hopens : m.Opens text next := ⟨hiskey, colon, by rw [hskip, hafter], hcolon⟩
      obtain ⟨⟨json, after'⟩, hjson, h⟩ := Step.ok_of_bind h
      obtain ⟨separation, hseparation, h⟩ := Step.ok_of_bind h
      obtain ⟨ms, hms⟩ := hread.value hjson
      rcases separationOf_eq_ok hseparation with ⟨others, hclose, rfl⟩ | ⟨others, hcomma, rfl⟩
      · cases h
        exact ⟨m :: ms, .lastMember hopens hms hclose⟩
      · obtain ⟨⟨more, final⟩, hmore, h⟩ := Step.ok_of_bind h
        cases h
        obtain ⟨more', hmore'⟩ := hread.members hmore
        exact ⟨m :: (ms ++ more'), .member hopens hms hcomma hmore'⟩
    · cases h
  · cases h

end Step

theorem readsWritten (fuel : Nat) : ReadsWritten fuel := by
  induction fuel with
  | zero =>
    constructor
    · intro levels text json rest h
      rw [valueOf] at h
      cases h
    · intro levels text items rest h
      rw [itemsOf] at h
      cases h
    · intro levels text entries rest h
      rw [entriesOf] at h
      cases h
  | succ fuel ih => exact ⟨ih.valueOf_succ, ih.itemsOf_succ, ih.entriesOf_succ⟩

/-- A text that can be read has a structure. -/
theorem exists_isText {text : String} {json : Json} (h : Json.ofText text = .ok json) :
    ∃ ms, IsText json ms text.toList := by
  obtain ⟨⟨found, rest⟩, hfound, h⟩ := Step.ok_of_bind h
  dsimp only at h
  split at h
  · next hrest =>
    cases h
    obtain ⟨ms, hms⟩ := (readsWritten _).value hfound
    exact ⟨ms, rest, hms, hrest⟩
  · cases h

end Values

end WireSchema.Json
