import WireSchema.Proofs.Derivation.Sound
import WireSchema.Proofs.Program.Lookup

/-!
# Programs that have all they need

A program is only built if its definitions and its entries all have layouts, and
so has every key inside of a layout. From then on no use of it can come to a key
without one. Uses may fail in every other way.
-/

namespace WireSchema

set_option autoImplicit false

open Schema Step

/-- What a program is used for once it is there. -/
inductive Operation where
  | encodeAccount (name : String) (v : Value)
  | encodeEvent (name : String) (v : Value)
  | encodeInstruction (name : String) (args : List (String × Value))
  | decodeAccount (name : String) (data : List UInt8)
  | decodeEvent (name : String) (data : List UInt8)
  | decodeInstruction (name : String) (data : List UInt8)
  | decodeReturn (name : String) (data : List UInt8)
  | decodeAny (data : List UInt8)

def errorOf {α : Type} : Except CodecError α → Option CodecError
  | .ok _ => none
  | .error e => some e

/-- The error of an operation that fails. -/
def Operation.error? (p : Program) : Operation → Option CodecError
  | .encodeAccount name v => errorOf (p.encodeAccount name v)
  | .encodeEvent name v => errorOf (p.encodeEvent name v)
  | .encodeInstruction name args => errorOf (p.encodeInstruction name args)
  | .decodeAccount name data => errorOf (p.decodeAccount name data)
  | .decodeEvent name data => errorOf (p.decodeEvent name data)
  | .decodeInstruction name data => errorOf (p.decodeInstruction name data)
  | .decodeReturn name data => errorOf (p.decodeReturn name data)
  | .decodeAny data => errorOf (p.decodeAny data)

/-- The keys in the codecs of an entry. -/
def Identified.keys : Identified → List String
  | .account entry | .event entry => entry.codec.keys
  | .instruction entry => entry.keys

/-- If this fails, it is not for want of a layout. -/
def Finds {α : Type} (x : Except CodecError α) : Prop :=
  ∀ e, x = .error e → e.LayoutFound

section Results

variable {α β : Type} {x : Except CodecError α}

theorem finds_ok (a : α) : Finds (.ok a : Except CodecError α) :=
  fun _ h => nomatch h

theorem finds_error {e : CodecError} (h : e.LayoutFound) : Finds (.error e : Except CodecError α) := by
  intro e' he
  cases he
  exact h

theorem Finds.bind {f : α → Except CodecError β} (hx : Finds x) (hf : ∀ a, x = .ok a → Finds (f a)) :
    Finds (x >>= f) := by
  intro e h
  rcases error_of_bind h with hx' | ⟨a, ha, hfa⟩
  · exact hx e hx'
  · exact hf a ha e hfa

theorem Finds.errorOf_ne (h : Finds x) (key : String) : errorOf x ≠ some (.missingLayout key) := by
  cases x with
  | ok a => exact fun h => nomatch h
  | error e =>
    intro he
    cases he
    exact h _ rfl

theorem finds_bytes {encoder : Encoder} (h : RaisesOnly CodecError.LayoutFound encoder) :
    Finds encoder.bytes := by
  intro e he
  unfold Encoder.bytes at he
  split at he
  · cases he
  · next hrun =>
    cases he
    exact h _ _ _ hrun

theorem finds_runOn {decoder : Decoder α} (h : RaisesOnly CodecError.LayoutFound decoder)
    (data : List UInt8) : Finds (Prod.fst <$> decoder.runOn data) := by
  intro e he
  unfold Decoder.runOn at he
  split at he
  · cases he
  · next hrun =>
    cases he
    exact h _ _ _ hrun

end Results

namespace LayoutSet.Sound

variable {set : LayoutSet} {codec : Codec}

theorem finds_encodePrefixed (hset : set.Sound) (hcodec : set.Resolves codec.keys) (d : Discriminator)
    (v : Value) : Finds (set.encodePrefixed d codec v) := by
  apply finds_bytes
  exact (raisesOnly_emit _).bind fun _ => hset.writesWithin v codec hcodec

theorem finds_decodePrefixed (hset : set.Sound) (hcodec : set.Resolves codec.keys) (d : Discriminator)
    (data : List UInt8) : Finds (set.decodePrefixed d codec data false) := by
  apply finds_runOn
  refine (raisesOnly_discriminator d).bind fun _ => ?_
  exact (hset.readsWithin (maxDepth + 1) codec hcodec).bind fun v => raisesOnly_pure v

theorem finds_decode (hset : set.Sound) (hcodec : set.Resolves codec.keys) (data : List UInt8) :
    Finds (set.decode codec data) := by
  apply finds_runOn
  refine (hset.readsWithin (maxDepth + 1) codec hcodec).bind fun v => ?_
  exact raisesOnly_finished.map fun _ => v

end LayoutSet.Sound

namespace Program

variable {doc : Document} {p : Program} {e : Identified}

theorem finds_entry (p : Program) (kind : EntityKind) (name : String) : Finds (p.entry kind name) := by
  rw [entry_eq]
  split
  · exact finds_ok _
  · exact finds_error trivial

theorem mem_listed_of_entry {kind : EntityKind} {name : String} (h : p.entry kind name = .ok e) :
    e ∈ p.listed :=
  List.mem_of_find?_eq_some (entry_eq_ok_iff.mp h)

section Named

variable {β : Type} {name : String}

/-- What is done with the account of a name, if there is one. -/
theorem finds_account {f : DataEntry → Except CodecError β} (hf : ∀ entry ∈ p.accounts, Finds (f entry)) :
    Finds (p.account name >>= f) := by
  unfold account
  split
  · next entry hfind => exact hf entry (List.mem_of_find?_eq_some hfind)
  · exact finds_error trivial

theorem finds_event {f : DataEntry → Except CodecError β} (hf : ∀ entry ∈ p.events, Finds (f entry)) :
    Finds (p.event name >>= f) := by
  unfold event
  split
  · next entry hfind => exact hf entry (List.mem_of_find?_eq_some hfind)
  · exact finds_error trivial

theorem finds_instruction {f : InstructionEntry → Except CodecError β}
    (hf : ∀ entry ∈ p.instructions, Finds (f entry)) : Finds (p.instruction name >>= f) := by
  unfold instruction
  split
  · next entry hfind => exact hf entry (List.mem_of_find?_eq_some hfind)
  · exact finds_error trivial

end Named

theorem finds_identify (p : Program) (data : List UInt8) : Finds (p.identify data) := by
  unfold identify
  split
  · exact finds_error trivial
  · split
    · exact finds_ok _
    · exact finds_error trivial

/-- What is listed comes from the document, accounts and events with the key of their own name. -/
theorem Built.resolves (h : Built doc p) (he : e ∈ p.listed) : p.layouts.Resolves e.keys := by
  simp only [listed, List.mem_append, List.mem_map] at he
  have hentry : ∀ (kind : EntityKind) {entities : List Entity} {entries : List DataEntry},
      entities.mapM (dataEntry p.layouts kind) = .ok entries → ∀ entry ∈ entries,
        p.layouts.Resolves entry.codec.keys := by
    intro kind entities entries hentries entry hmem
    obtain ⟨hcodec, hcontains⟩ := of_dataEntries hentries hmem
    rw [hcodec]
    exact List.forall_mem_singleton.mpr hcontains
  rcases he with (⟨entry, hmem, rfl⟩ | ⟨entry, hmem, rfl⟩) | ⟨entry, hmem, rfl⟩
  · exact hentry .account h.accounts entry hmem
  · exact hentry .event h.events entry hmem
  · exact h.sound.2.1 entry hmem

section Operations

variable (h : Built doc p)

include h

theorem Built.finds_read (he : e ∈ p.listed) (data : List UInt8) : Finds (p.read e data) := by
  have hkeys := h.resolves he
  obtain ⟨hset, -⟩ := h.sound
  cases e with
  | account entry => exact hset.finds_decodePrefixed hkeys entry.discriminator data
  | event entry => exact hset.finds_decodePrefixed hkeys entry.discriminator data
  | instruction entry =>
    have hargs : p.layouts.Resolves (fieldKeys entry.args) := hkeys.subset (List.subset_append_left _ _)
    apply finds_runOn
    refine (raisesOnly_discriminator entry.discriminator).bind fun _ => ?_
    refine ((hset.readsWithin (maxDepth + 1)).fields hargs).bind fun args => ?_
    exact raisesOnly_finished.map fun _ => Value.struct args

theorem Built.finds_decodeAs (kind : EntityKind) (name : String) (data : List UInt8) :
    Finds (p.decodeAs kind name data) := by
  rw [decodeAs_eq]
  apply (finds_entry p kind name).bind
  intro e he
  exact h.finds_read (mem_listed_of_entry he) data

theorem Built.finds_decodeAny (data : List UInt8) : Finds (p.decodeAny data) := by
  rw [decodeAny_eq]
  apply (finds_identify p data).bind
  intro e he
  obtain ⟨d, -, hfind⟩ := identify_eq_ok_iff.mp he
  apply (h.finds_read (List.mem_of_find?_eq_some hfind) data).bind
  exact fun v _ => finds_ok (e, v)

theorem Built.finds_encodeEntry {entry : DataEntry} (hkeys : p.layouts.Resolves entry.codec.keys)
    (v : Value) : Finds (p.encodeEntry entry v) :=
  h.sound.1.finds_encodePrefixed hkeys entry.discriminator v

theorem Built.finds_encodeAccount (name : String) (v : Value) : Finds (p.encodeAccount name v) := by
  apply finds_account
  intro entry hentry
  have hlisted : .account entry ∈ p.listed := by simpa [listed] using hentry
  exact h.finds_encodeEntry (h.resolves hlisted) v

theorem Built.finds_encodeEvent (name : String) (v : Value) : Finds (p.encodeEvent name v) := by
  apply finds_event
  intro entry hentry
  have hlisted : .event entry ∈ p.listed := by simpa [listed] using hentry
  exact h.finds_encodeEntry (h.resolves hlisted) v

theorem Built.finds_encodeInstruction (name : String) (args : List (String × Value)) :
    Finds (p.encodeInstruction name args) := by
  apply finds_instruction
  intro entry hentry
  have hkeys := h.sound.2.1 entry hentry
  have hargs : p.layouts.Resolves (fieldKeys entry.args) := hkeys.subset (List.subset_append_left _ _)
  apply finds_bytes
  refine (raisesOnly_emit _).bind fun _ => ?_
  exact raisesOnly_writeFields (fun f _ => h.sound.1.writesWithin f.2) hargs

theorem Built.finds_decodeReturn (name : String) (data : List UInt8) : Finds (p.decodeReturn name data) := by
  apply finds_instruction
  intro entry hentry
  have hkeys := h.sound.2.1 entry hentry
  cases hreturns : entry.returns with
  | none => exact finds_error trivial
  | some codec =>
    apply h.sound.1.finds_decode
    apply hkeys.subset
    simp [InstructionEntry.keys, hreturns]

theorem Built.finds_operation (op : Operation) (key : String) :
    op.error? p ≠ some (.missingLayout key) := by
  cases op with
  | encodeAccount name v => exact (h.finds_encodeAccount name v).errorOf_ne key
  | encodeEvent name v => exact (h.finds_encodeEvent name v).errorOf_ne key
  | encodeInstruction name args => exact (h.finds_encodeInstruction name args).errorOf_ne key
  | decodeAccount name data => exact (h.finds_decodeAs .account name data).errorOf_ne key
  | decodeEvent name data => exact (h.finds_decodeAs .event name data).errorOf_ne key
  | decodeInstruction name data => exact (h.finds_decodeAs .instruction name data).errorOf_ne key
  | decodeReturn name data => exact (h.finds_decodeReturn name data).errorOf_ne key
  | decodeAny data => exact (h.finds_decodeAny data).errorOf_ne key

end Operations

/-- Everything that a program can come to has its layout. -/
structure Supplied (doc : Document) (p : Program) : Prop where
  definitions : ∀ d ∈ doc.types, d.params = [] → ∃ layout, p.layouts.get? d.name = some layout
    ∧ (Registry.ofTypes doc.types).layout? ⟨d.name, []⟩ = some layout
  entries : ∀ e ∈ p.listed, p.layouts.Resolves e.keys
  layouts : ∀ key layout, p.layouts.get? key = some layout → p.layouts.Resolves layout.keys
  operations : ∀ (op : Operation) (key : String), op.error? p ≠ some (.missingLayout key)

theorem supplied_of_ofDocument (h : ofDocument doc = .ok p) : Supplied doc p := by
  have hbuilt := built_of_ofDocument h
  obtain ⟨hset, -, hplain⟩ := hbuilt.sound
  refine ⟨?_, fun e => hbuilt.resolves, hset.closed, hbuilt.finds_operation⟩
  intro d hd hparams
  obtain ⟨layout, hlayout⟩ := LayoutSet.get?_of_contains (hplain d hd hparams)
  have hdistinct := Registry.distinct_ofTypes doc.types
  obtain ⟨i, hkey, hi⟩ := (finishes_of_ofDocument h).layout? hdistinct hlayout
  have hname := Document.isTypeName_of_validate hbuilt.valid hd
  rw [eq_of_key_eq_name hname hkey] at hi
  exact ⟨layout, hlayout, hi⟩

/-- Two generics that name each other, asked for by an account, by an argument and by a result. -/
theorem supplied_of_ofDocument_links :
    let node : TypeDef := .record "Node" [.type "T"] [("value", .generic "T"),
      ("link", .option .byte (some (.defined "Link" [.type (.generic "T")])))]
    let link : TypeDef := .record "Link" [.type "T"]
      [("nodes", .vec (some (.defined "Node" [.type (.generic "T")])))]
    let list : TypeDef := .record "List" [] [("first", .defined "Node" [.type (.prim (.scalar .u8))])]
    let doc : Document := { Document.ofTypes [node, link, list] with
      accounts := [⟨"List", [1, 0, 0, 0, 0, 0, 0, 0]⟩]
      instructions := [⟨"append", [], [2, 0, 0, 0, 0, 0, 0, 0], [],
        [⟨"node", [], .defined "Node" [.type (.prim .bool)]⟩],
        some (.defined "Link" [.type (.prim .bool)])⟩] }
    ∃ p, ofDocument doc = .ok p ∧ Supplied doc p
      ∧ p.layouts.keys = ["Link<bool>", "Link<u8>", "List", "Node<bool>", "Node<u8>"] := by
  intro node link list doc
  have hkeys : (ofDocument doc).toOption.map (·.layouts.keys)
      = some ["Link<bool>", "Link<u8>", "List", "Node<bool>", "Node<u8>"] := by decide +kernel
  cases hp : ofDocument doc with
  | error e =>
    rw [hp] at hkeys
    cases hkeys
  | ok p =>
    rw [hp] at hkeys
    exact ⟨p, rfl, supplied_of_ofDocument hp, Option.some.inj hkeys⟩

end Program

end WireSchema
