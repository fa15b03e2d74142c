import WireSchema.Proofs.Derivation.Spelling
import WireSchema.Proofs.Derivation.Derive

/-!
# Keys and what they stand for

Every codec but an array is spelled like a name with arguments, as the key of an
instance is. If no definition can be taken for a keyword or a wrapper, and no
constant has a separator in it, a key stands for one instance only. The
induction is on how a codec is made from the codecs in it; the text behind it is
arbitrary as long as it can follow a codec.
-/

namespace WireSchema

set_option autoImplicit false

open Schema

def isNameChar (c : Char) : Bool :=
  c.isAlphanum || c = '_' || c = ':'

theorem isNameChar_of_isTypeName {name : String} (h : isTypeName name = true) :
    ∀ c ∈ name.toList, isNameChar c = true := by
  rw [isTypeName, Bool.and_eq_true] at h
  exact List.all_eq_true.mp h.2

def Schema.Param.isConst : Param → Bool
  | .type _ => false
  | .const _ _ => true

def Argument.isConst : Argument → Bool
  | .type _ => false
  | .const _ => true

namespace Registry

/-- No name can be taken for another thing: names are words, those without generics are no keywords,
and those with generics are not the names of wrappers. -/
structure ClearNames (registry : Registry) : Prop where
  words : ∀ name d, registry.get? name = some d → isTypeName name = true
  keywords : ∀ name d, registry.get? name = some d → d.params = [] → ∀ p : Primitive, name ≠ p.keyword
  wrappers : ∀ name d, registry.get? name = some d → d.params ≠ [] →
    name ≠ "Vec" ∧ ∀ tag : OptionTag, name ≠ tag.label

/-- The arguments have the kinds that the definition asks for, and constants have no separator. -/
structure Fits (registry : Registry) (i : Instance) : Prop where
  kinds : ∃ d, registry.get? i.name = some d ∧ i.args.map Argument.isConst = d.params.map Param.isConst
  unsplit : ∀ text, Argument.const text ∈ i.args → Unsplit text.toList

/-- The codec is written as a name with arguments. -/
inductive Spells (registry : Registry) : Codec → Instance → Prop
  | prim (p : Primitive) : Spells registry (.prim p) ⟨p.keyword, []⟩
  | option (tag : OptionTag) (inner : Codec) :
      Spells registry (.option tag inner) ⟨tag.label, [.type inner]⟩
  | vec (inner : Codec) : Spells registry (.vec inner) ⟨"Vec", [.type inner]⟩
  | defined {i : Instance} : registry.Fits i → Spells registry (.defined i.key) i

/-- The codec is made of keywords, wrappers, arrays and instances. -/
inductive Made (registry : Registry) : Codec → Prop
  | spelled {c : Codec} {i : Instance} : Spells registry c i →
      (∀ a, Argument.type a ∈ i.args → Made registry a) → Made registry c
  | array {inner : Codec} (n : Nat) : Made registry inner → Made registry (.array inner n)

section Spelled

variable {registry : Registry} {c c' : Codec} {i j : Instance}

theorem Spells.text (h : Spells registry c i) : c.text = i.key := by
  cases h with
  | prim p => rfl
  | option tag inner => rfl
  | vec inner => rfl
  | defined _ => rfl

theorem Spells.word (hnames : registry.ClearNames) (h : Spells registry c i) :
    isTypeName i.name = true := by
  cases h with
  | prim p => cases p with
    | scalar s => cases s <;> decide
    | _ => decide
  | option tag inner =>
    show isTypeName tag.label = true
    cases tag <;> decide
  | vec inner =>
    show isTypeName "Vec" = true
    decide
  | defined hfits =>
    obtain ⟨d, hd, -⟩ := hfits.kinds
    exact hnames.words _ d hd

theorem Spells.unsplit (h : Spells registry c i) {text : String} (ht : Argument.const text ∈ i.args) :
    Unsplit text.toList := by
  cases h with
  | prim p => cases ht
  | option tag inner => cases List.mem_singleton.mp ht
  | vec inner => cases List.mem_singleton.mp ht
  | defined hfits => exact hfits.unsplit text ht

theorem mem_all (p : Primitive) : p ∈ Primitive.all := by
  cases p with
  | scalar s => cases s <;> decide
  | _ => decide

theorem keyword_injective {p q : Primitive} (h : p.keyword = q.keyword) : p = q := by
  have hinj : ∀ p ∈ Primitive.all, ∀ q ∈ Primitive.all, p.keyword = q.keyword → p = q := by decide
  exact hinj p (mem_all p) q (mem_all q) h

theorem label_injective {tag tag' : OptionTag} (h : tag.label = tag'.label) : tag = tag' := by
  cases tag <;> cases tag' <;> first | rfl | exact absurd h (by decide)

theorem label_ne_vec (tag : OptionTag) : tag.label ≠ "Vec" := by
  cases tag <;> decide

theorem Fits.params_eq_nil (h : registry.Fits i) :
    ∃ d, registry.get? i.name = some d ∧ (d.params = [] ↔ i.args = []) := by
  obtain ⟨d, hd, hkinds⟩ := h.kinds
  refine ⟨d, hd, ?_⟩
  rw [← List.map_eq_nil_iff (f := Param.isConst), ← hkinds, List.map_eq_nil_iff]

theorem Fits.ne_keyword (hnames : registry.ClearNames) (h : registry.Fits i) (hargs : i.args = [])
    (p : Primitive) : i.name ≠ p.keyword := by
  obtain ⟨d, hd, hparams⟩ := h.params_eq_nil
  exact hnames.keywords _ d hd (hparams.mpr hargs) p

theorem Fits.ne_wrapper (hnames : registry.ClearNames) (h : registry.Fits i) (hargs : i.args ≠ []) :
    i.name ≠ "Vec" ∧ ∀ tag : OptionTag, i.name ≠ tag.label := by
  obtain ⟨d, hd, hparams⟩ := h.params_eq_nil
  exact hnames.wrappers _ d hd fun hnil => hargs (hparams.mp hnil)

theorem Spells.unique (hnames : registry.ClearNames) (h : Spells registry c i) (h' : Spells registry c' i) :
    c = c' := by
  generalize hi : i = i' at h'
  cases h with
  | prim p =>
    cases h' with
    | prim q =>
      obtain ⟨hname, -⟩ := Instance.mk.inj hi
      rw [keyword_injective hname]
    | option tag inner => cases (Instance.mk.inj hi).2
    | vec inner => cases (Instance.mk.inj hi).2
    | defined hfits =>
      subst hi
      exact absurd rfl (hfits.ne_keyword hnames rfl p)
  | option tag inner =>
    cases h' with
    | prim q => cases (Instance.mk.inj hi).2
    | option tag' inner' =>
      obtain ⟨hname, hargs⟩ := Instance.mk.inj hi
      cases hargs
      rw [label_injective hname]
    | vec inner' => exact absurd (Instance.mk.inj hi).1 (label_ne_vec tag)
    | defined hfits =>
      subst hi
      exact absurd rfl ((hfits.ne_wrapper hnames (List.cons_ne_nil _ _)).2 tag)
  | vec inner =>
    cases h' with
    | prim q => cases (Instance.mk.inj hi).2
    | option tag inner' => exact absurd (Instance.mk.inj hi).1.symm (label_ne_vec tag)
    | vec inner' =>
      cases (Instance.mk.inj hi).2
      rfl
    | defined hfits =>
      subst hi
      exact absurd rfl (hfits.ne_wrapper hnames (List.cons_ne_nil _ _)).1
  | defined hfits =>
    subst hi
    cases h' with
    | prim q => exact absurd rfl (hfits.ne_keyword hnames rfl q)
    | option tag inner => exact absurd rfl ((hfits.ne_wrapper hnames (List.cons_ne_nil _ _)).2 tag)
    | vec inner => exact absurd rfl (hfits.ne_wrapper hnames (List.cons_ne_nil _ _)).1
    | defined _ => rfl

theorem Spells.kinds (hnames : registry.ClearNames) (h : Spells registry c i) (h' : Spells registry c' j)
    (hname : i.name = j.name) (hi : i.args ≠ []) (hj : j.args ≠ []) :
    i.args.map Argument.isConst = j.args.map Argument.isConst := by
  cases h with
  | prim p => exact absurd rfl hi
  | option tag inner =>
    cases h' with
    | prim q => exact absurd rfl hj
    | option tag' inner' => rfl
    | vec inner' => rfl
    | defined hfits => exact absurd hname.symm ((hfits.ne_wrapper hnames hj).2 tag)
  | vec inner =>
    cases h' with
    | prim q => exact absurd rfl hj
    | option tag inner' => rfl
    | vec inner' => rfl
    | defined hfits => exact absurd hname.symm (hfits.ne_wrapper hnames hj).1
  | defined hfits =>
    cases h' with
    | prim q => exact absurd rfl hj
    | option tag inner => exact absurd hname ((hfits.ne_wrapper hnames hi).2 tag)
    | vec inner => exact absurd hname (hfits.ne_wrapper hnames hi).1
    | defined hfits' =>
      obtain ⟨d, hd, hkinds⟩ := hfits.kinds
      obtain ⟨d', hd', hkinds'⟩ := hfits'.kinds
      rw [hname, hd'] at hd
      cases hd
      rw [hkinds, hkinds']

end Spelled

section Recover

variable {registry : Registry} {c c' : Codec} {i j : Instance} {K : List Closer} {s s' : List Char}

/-- From its text and any text that can follow it the codec and what follows are recovered. -/
def Recovers (registry : Registry) (c : Codec) : Prop :=
  ∀ (K : List Closer) (c' : Codec) (s s' : List Char), Made registry c' → Follows K s → Follows K s' →
    c.text.toList ++ s = c'.text.toList ++ s' → c = c' ∧ s = s'

/-- The arguments of an instance as they stand between angle brackets. -/
def joined (args : List Argument) : List Char :=
  (", ".intercalate (args.map Argument.text)).toList

@[simp] theorem joined_singleton (a : Argument) : joined [a] = a.text.toList := by
  simp [joined]

theorem joined_cons_cons (a b : Argument) (rest : List Argument) :
    joined (a :: b :: rest) = a.text.toList ++ (separator ++ joined (b :: rest)) := by
  simp [joined, separator, String.intercalate_cons_cons, String.toList_append]

theorem argument_append_inj {a b : Argument} (hkind : a.isConst = b.isConst)
    (hrec : ∀ c, a = .type c → Recovers registry c) (hmade : ∀ c, b = .type c → Made registry c)
    (ha : ∀ text, a = .const text → Unsplit text.toList)
    (hb : ∀ text, b = .const text → Unsplit text.toList) (hs : Follows K s) (hs' : Follows K s')
    (h : a.text.toList ++ s = b.text.toList ++ s') : a = b ∧ s = s' := by
  cases a with
  | type c =>
    cases b with
    | type c' =>
      obtain ⟨rfl, rfl⟩ := hrec c rfl K c' s s' (hmade c' rfl) hs hs' h
      exact ⟨rfl, rfl⟩
    | const text => cases hkind
  | const text =>
    cases b with
    | type c' => cases hkind
    | const text' =>
      obtain ⟨htext, rfl⟩ := const_append_inj (ha text rfl) (hb text' rfl) hs hs' h
      exact ⟨by rw [String.toList_injective htext], rfl⟩

theorem args_append_inj {xs ys : List Argument} (hxs : xs ≠ [])
    (hkinds : xs.map Argument.isConst = ys.map Argument.isConst)
    (hrec : ∀ c, Argument.type c ∈ xs → Recovers registry c)
    (hmade : ∀ c, Argument.type c ∈ ys → Made registry c)
    (hx : ∀ text, Argument.const text ∈ xs → Unsplit text.toList)
    (hy : ∀ text, Argument.const text ∈ ys → Unsplit text.toList) (hs : Follows K s) (hs' : Follows K s')
    (h : joined xs ++ '>' :: s = joined ys ++ '>' :: s') : xs = ys ∧ s = s' := by
  induction xs generalizing ys with
  | nil => exact absurd rfl hxs
  | cons a xs ih =>
    cases ys with
    | nil => cases hkinds
    | cons b ys =>
      obtain ⟨hkind, htails⟩ := List.cons.inj hkinds
      have harg {K : List Closer} {s s' : List Char} (hs : Follows K s) (hs' : Follows K s')
          (h : a.text.toList ++ s = b.text.toList ++ s') : a = b ∧ s = s' :=
        argument_append_inj hkind (fun c hc => hrec c (by simp [hc])) (fun c hc => hmade c (by simp [hc]))
          (fun text ht => hx text (by simp [ht])) (fun text ht => hy text (by simp [ht])) hs hs' h
      rcases xs with _ | ⟨a', xs⟩ <;> rcases ys with _ | ⟨b', ys⟩
      · rw [joined_singleton, joined_singleton] at h
        obtain ⟨rfl, htail⟩ := harg hs.angle hs'.angle h
        exact ⟨rfl, (List.cons.inj htail).2⟩
      · cases htails
      · cases htails
      · rw [joined_cons_cons, joined_cons_cons, List.append_assoc, List.append_assoc, List.append_assoc,
          List.append_assoc] at h
        obtain ⟨rfl, htail⟩ := harg (follows_separator _) (follows_separator _) h
        obtain ⟨hrest, rfl⟩ := ih (List.cons_ne_nil _ _) htails
          (fun c hc => hrec c (List.mem_cons_of_mem _ hc)) (fun c hc => hmade c (List.mem_cons_of_mem _ hc))
          (fun text ht => hx text (List.mem_cons_of_mem _ ht))
          (fun text ht => hy text (List.mem_cons_of_mem _ ht)) (List.append_cancel_left htail)
        exact ⟨by rw [hrest], rfl⟩

/-- What stands behind the name in a key and the text that follows it. -/
def behindName (args : List Argument) (s : List Char) : List Char :=
  if args = [] then s else '<' :: (joined args ++ '>' :: s)

theorem key_append (i : Instance) (s : List Char) :
    i.key.toList ++ s = i.name.toList ++ behindName i.args s := by
  unfold Instance.key instanceKey behindName joined
  by_cases h : i.args = []
  · simp [h]
  · simp [h, String.toList_append]

theorem stops_behindName (hs : Follows K s) (args : List Argument) :
    Stops isNameChar (behindName args s) := by
  unfold behindName
  split
  · intro d hd
    rcases hs.head d hd with rfl | rfl | rfl <;> decide
  · exact stops_cons (by decide) _

theorem behindName_ne {args : List Argument} (hs : Follows K s) (hargs : args ≠ []) (s' : List Char) :
    behindName [] s ≠ behindName args s' := by
  intro h
  rw [behindName, behindName, if_pos rfl, if_neg hargs] at h
  rcases hs.head '<' (by rw [h]; rfl) with h | h | h <;> exact absurd h (by decide)

/-- Two spellings in one text are the same. -/
theorem spelling_append_inj (hnames : registry.ClearNames) (hi : Spells registry c i)
    (hj : Spells registry c' j) (hrec : ∀ a, Argument.type a ∈ i.args → Recovers registry a)
    (hmade : ∀ a, Argument.type a ∈ j.args → Made registry a) (hs : Follows K s) (hs' : Follows K s')
    (h : i.key.toList ++ s = j.key.toList ++ s') : i = j ∧ s = s' := by
  rw [key_append, key_append] at h
  obtain ⟨hname, hbehind⟩ := word_append_inj (isNameChar_of_isTypeName (hi.word hnames))
    (isNameChar_of_isTypeName (hj.word hnames)) (stops_behindName hs _) (stops_behindName hs' _) h
  replace hname : i.name = j.name := String.toList_injective hname
  obtain ⟨name, xs⟩ := i
  obtain ⟨name', ys⟩ := j
  dsimp only at hname hbehind hrec hmade
  subst hname
  by_cases hx : xs = []
  · by_cases hy : ys = []
    · subst hx hy
      exact ⟨rfl, by simpa [behindName] using hbehind⟩
    · subst hx
      exact absurd hbehind (behindName_ne hs hy s')
  · by_cases hy : ys = []
    · subst hy
      exact absurd hbehind.symm (behindName_ne hs' hx s)
    · rw [behindName, behindName, if_neg hx, if_neg hy] at hbehind
      obtain ⟨rfl, rfl⟩ := args_append_inj hx (hi.kinds hnames hj rfl hx hy) hrec hmade
        (fun text ht => hi.unsplit ht) (fun text ht => hj.unsplit ht) hs hs' (List.cons.inj hbehind).2
      exact ⟨rfl, rfl⟩

theorem array_text (inner : Codec) (n : Nat) (s : List Char) :
    (Codec.array inner n).text.toList ++ s = '[' :: (inner.text.toList ++ (bracketText n ++ s)) := by
  have htext : (Codec.array inner n).text = "[" ++ inner.text ++ "; " ++ n.repr ++ "]" := rfl
  rw [htext]
  simp [String.toList_append, bracketText, Nat.toList_repr]

theorem key_ne_bracket (hnames : registry.ClearNames) (hi : Spells registry c i) (s rest : List Char) :
    i.key.toList ++ s ≠ '[' :: rest := by
  rw [key_append]
  intro h
  have hword := hi.word hnames
  have hchars := isNameChar_of_isTypeName hword
  cases hname : i.name.toList with
  | nil =>
    rw [String.toList_eq_nil_iff.mp hname] at hword
    exact absurd hword (by decide)
  | cons d word =>
    rw [hname] at h hchars
    have hd := hchars d List.mem_cons_self
    rw [(List.cons.inj h).1] at hd
    exact absurd hd (by decide)

theorem Made.recovers (hnames : registry.ClearNames) (h : Made registry c) : Recovers registry c := by
  induction h with
  | @spelled c i hi hargs ih =>
    intro K c' s s' hc' hs hs' heq
    cases hc' with
    | @spelled _ j hj hmade =>
      rw [hi.text, hj.text] at heq
      obtain ⟨rfl, rfl⟩ := spelling_append_inj hnames hi hj ih hmade hs hs' heq
      exact ⟨hi.unique hnames hj, rfl⟩
    | @array inner n _ =>
      rw [hi.text, array_text] at heq
      exact absurd heq (key_ne_bracket hnames hi s _)
  | @array inner n _ ih =>
    intro K c' s s' hc' hs hs' heq
    cases hc' with
    | @spelled _ j hj hmade =>
      rw [hj.text, array_text] at heq
      exact absurd heq.symm (key_ne_bracket hnames hj s' _)
    | @array inner' m hmade =>
      rw [array_text, array_text] at heq
      obtain ⟨rfl, hrest⟩ := ih (.bracket :: K) inner' _ _ hmade (hs.bracket n) (hs'.bracket m)
        (List.cons.inj heq).2
      obtain ⟨rfl, rfl⟩ := bracketText_append_inj hrest
      exact ⟨rfl, rfl⟩

/-- A key stands for one instance. -/
theorem key_injective (hnames : registry.ClearNames) (hi : registry.Fits i) (hj : registry.Fits j)
    (hmade : ∀ a, Argument.type a ∈ i.args → Made registry a)
    (hmade' : ∀ a, Argument.type a ∈ j.args → Made registry a) (h : i.key = j.key) : i = j := by
  have happend : i.key.toList ++ [] = j.key.toList ++ [] := by rw [h]
  exact (spelling_append_inj hnames (.defined hi) (.defined hj) (fun a ha => (hmade a ha).recovers hnames)
    hmade' follows_nil follows_nil happend).1

end Recover

end Registry

end WireSchema
