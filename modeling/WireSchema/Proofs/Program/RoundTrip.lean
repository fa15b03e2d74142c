import WireSchema.Proofs.Codec.Shape
import WireSchema.Proofs.Program.Lookup
import WireSchema.Proofs.RoundTrip

/-!
# Decoding by name what was encoded

What was encoded under a name is read under that name as its normal form, or
refused for its depth. A value that is shaped like its layout comes back as it
was where names are distinct. Nothing makes a document keep its field names
distinct, and with two fields of one name a value may come back as another.
-/

namespace WireSchema

set_option autoImplicit false

open Schema Encoder Decoder

namespace Identified

variable {set : LayoutSet} {e : Identified} {v : Value}

/-- What a value that was written as an entry is read as. -/
def normal (set : LayoutSet) : Identified → Value → Value
  | .account entry, v | .event entry, v => v.normal set entry.codec
  | .instruction entry, .struct args => .struct (pickFields (normalFields set args) entry.args)
  | .instruction _, v => v

/-- How many levels it takes to read a value. Each argument of an instruction is read by itself. -/
def levels (set : LayoutSet) : Identified → Value → Nat
  | .account entry, v | .event entry, v => v.depth set entry.codec + 1
  | .instruction entry, .struct args => fieldsDepth set entry.args args
  | .instruction _, _ => 0

def Shaped (set : LayoutSet) : Identified → Value → Prop
  | .account entry, v | .event entry, v => v.Shaped set entry.codec
  | .instruction entry, .struct args => fieldsShaped set entry.args args
  | .instruction _, _ => False

end Identified

/-- No name stands twice in a layout or among the arguments of an instruction. -/
structure Program.DistinctNames (p : Program) : Prop where
  layouts : p.layouts.DistinctNames
  args : ∀ entry ∈ p.instructions, (entry.args.map FieldCodec.name).Nodup

theorem LayoutSet.decodePrefixed_of_needs {set : LayoutSet} {codec : Codec} {n : Nat} {bytes : List UInt8}
    {w : Value} (h : Needs (set.readAt · codec) n bytes w) (d : Discriminator) :
    set.decodePrefixed d codec (d.toList ++ bytes) false
      = if n ≤ maxDepth + 1 then .ok w else .error (.depthLimit maxDepth) := by
  unfold decodePrefixed Decoder.runOn
  rw [Reader.ofBytes, Step.run_bind_ok (Reader.run_discriminator_append d 0 bytes)]
  by_cases hn : n ≤ maxDepth + 1
  · have hrun := h.reads (maxDepth + 1) 8 [] hn
    rw [List.append_nil] at hrun
    rw [if_pos hn, decodeFrom, Nat.zero_add, Step.run_bind_ok hrun]
    rfl
  · obtain ⟨r, hrun⟩ := h.refuses (maxDepth + 1) 8 [] (by omega)
    rw [List.append_nil] at hrun
    rw [if_neg hn, decodeFrom, Nat.zero_add, Step.run_bind_error hrun]
    rfl

namespace Program

variable {p : Program} {kind : EntityKind} {name : String} {e : Identified} {data bytes : List UInt8}
  {v : Value}

theorem decodeArgs_of_needs {entry : InstructionEntry} {n : Nat} {args : List (String × Value)}
    (h : Needs (fun levels => readFields (p.layouts.readAt levels) entry.args) n bytes args) :
    p.decodeArgs entry (entry.discriminator.toList ++ bytes)
      = if n ≤ maxDepth + 1 then .ok (.struct args) else .error (.depthLimit maxDepth) := by
  unfold decodeArgs Decoder.runOn
  rw [Reader.ofBytes, Step.run_bind_ok (Reader.run_discriminator_append entry.discriminator 0 bytes)]
  by_cases hn : n ≤ maxDepth + 1
  · have hrun := h.reads (maxDepth + 1) 8 [] hn
    rw [List.append_nil] at hrun
    have hfinished := Reader.run_finished ⟨8 + bytes.length, []⟩
    rw [if_pos hn, LayoutSet.decodeFields, Nat.zero_add, Step.run_bind_ok hrun]
    rw [Step.run_bind_ok hfinished]
    rfl
  · obtain ⟨r, hrun⟩ := h.refuses (maxDepth + 1) 8 [] (by omega)
    rw [List.append_nil] at hrun
    rw [if_neg hn, LayoutSet.decodeFields, Nat.zero_add, Step.run_bind_error hrun]
    rfl

theorem Holds.read_eq (hset : p.layouts.SmallEnums) (h : p.Holds e v bytes) :
    p.read e (e.discriminator.toList ++ bytes)
      = if e.levels p.layouts (e.normal p.layouts v) ≤ maxDepth + 1 then .ok (e.normal p.layouts v)
        else .error (.depthLimit maxDepth) := by
  cases h with
  | account hwrites =>
    exact LayoutSet.decodePrefixed_of_needs (LayoutSet.readsBack hset v _ bytes hwrites) _
  | event hwrites =>
    exact LayoutSet.decodePrefixed_of_needs (LayoutSet.readsBack hset v _ bytes hwrites) _
  | instruction hwrites =>
    exact decodeArgs_of_needs (needs_fields (fun f _ => LayoutSet.readsBack hset f.2) hwrites)

theorem decodeAs_of_encodes {doc : Document} (hp : ofDocument doc = .ok p)
    (h : p.Encodes kind name v bytes) : ∃ e, p.entry kind name = .ok e
      ∧ p.decodeAs kind name bytes
        = if e.levels p.layouts (e.normal p.layouts v) ≤ maxDepth + 1 then .ok (e.normal p.layouts v)
          else .error (.depthLimit maxDepth) := by
  obtain ⟨e, behind, hentry, hholds, rfl⟩ := h.holds
  refine ⟨e, hentry, ?_⟩
  rw [decodeAs_of_entry hentry]
  exact hholds.read_eq (LayoutSet.smallEnums_of_finishes (finishes_of_ofDocument hp))

theorem DistinctNames.normal_eq_self (hp : p.DistinctNames) (he : e ∈ p.listed)
    (h : e.Shaped p.layouts v) : e.normal p.layouts v = v := by
  cases e with
  | account entry => exact v.normal_eq_self hp.layouts entry.codec h
  | event entry => exact v.normal_eq_self hp.layouts entry.codec h
  | instruction entry =>
    have hentry : entry ∈ p.instructions := by simpa [listed] using he
    cases v with
    | struct args =>
      have hargs := normalFields_eq_self (fun f _ => f.2.normal_eq_self hp.layouts) (hp.args entry hentry) h
      rw [Identified.normal, hargs]
    | _ => exact h.elim

/-- Where names are distinct, values that are shaped like their layout come back as they were. -/
theorem decodeAs_of_encodes_shaped {doc : Document} (hp : ofDocument doc = .ok p) (hnames : p.DistinctNames)
    (hentry : p.entry kind name = .ok e) (hshape : e.Shaped p.layouts v)
    (hlevels : e.levels p.layouts v ≤ maxDepth + 1) (h : p.Encodes kind name v bytes) :
    p.decodeAs kind name bytes = .ok v
      ∧ ∀ w, e.Shaped p.layouts w → e.levels p.layouts w ≤ maxDepth + 1 →
        p.Encodes kind name w bytes → w = v := by
  have hmem : e ∈ p.listed := List.mem_of_find?_eq_some (entry_eq_ok_iff.mp hentry)
  have hback : ∀ w, e.Shaped p.layouts w → e.levels p.layouts w ≤ maxDepth + 1 →
      p.Encodes kind name w bytes → p.decodeAs kind name bytes = .ok w := by
    intro w hw hwlevels hencodes
    obtain ⟨other, hother, hdecode⟩ := decodeAs_of_encodes hp hencodes
    rw [hentry] at hother
    cases hother
    rwa [hnames.normal_eq_self hmem hw, if_pos hwlevels] at hdecode
  refine ⟨hback v hshape hlevels h, fun w hw hwlevels hencodes => ?_⟩
  have hsame := (hback w hw hwlevels hencodes).symm.trans (hback v hshape hlevels h)
  exact Except.ok.inj hsame

theorem decodeAs_of_encodes_shaped_pair :
    let doc : Document := { Document.ofTypes [.record "Pair" [] [("a", .prim .bool), ("b", .prim .bool)]] with
      accounts := [⟨"Pair", [1, 0, 0, 0, 0, 0, 0, 0]⟩] }
    let v : Value := .struct [("a", .bool true), ("b", .bool false)]
    let bytes : List UInt8 := [1, 0, 0, 0, 0, 0, 0, 0, 1, 0]
    ∃ p, ofDocument doc = .ok p ∧ p.DistinctNames ∧ p.Encodes .account "Pair" v bytes
      ∧ p.decodeAs .account "Pair" bytes = .ok v := by
  intro doc v bytes
  let pair : DataEntry := ⟨"Pair", #v[1, 0, 0, 0, 0, 0, 0, 0], .defined "Pair"⟩
  let p : Program := ⟨doc, ⟨[("Pair", .struct [⟨"a", .prim .bool⟩, ⟨"b", .prim .bool⟩])]⟩, [pair], [], []⟩
  have hp : ofDocument doc = .ok p := rfl
  have hnames : p.DistinctNames := ⟨by decide, by simp [p]⟩
  have hv : p.Encodes .account "Pair" v bytes := .account rfl
  have hshape : (Identified.account pair).Shaped p.layouts v := ⟨rfl, rfl, rfl, rfl, rfl⟩
  have hback := decodeAs_of_encodes_shaped hp hnames rfl hshape (by decide) hv
  exact ⟨p, hp, hnames, hv, hback.1⟩

/-- Two fields of one name: the first is written twice, so two values have the same bytes, and one of them
comes back as the other. -/
theorem decodeAs_repeated_field :
    let doc : Document := { Document.ofTypes [.record "Pair" [] [("a", .prim .bool), ("a", .prim .bool)]] with
      accounts := [⟨"Pair", [1, 0, 0, 0, 0, 0, 0, 0]⟩] }
    let v : Value := .struct [("a", .bool true), ("a", .bool false)]
    let w : Value := .struct [("a", .bool true), ("a", .bool true)]
    let bytes : List UInt8 := [1, 0, 0, 0, 0, 0, 0, 0, 1, 1]
    ∃ p e, ofDocument doc = .ok p ∧ p.entry .account "Pair" = .ok e
      ∧ (∀ u ∈ [v, w], e.Shaped p.layouts u ∧ e.levels p.layouts u ≤ maxDepth + 1
        ∧ p.Encodes .account "Pair" u bytes)
      ∧ p.decodeAs .account "Pair" bytes = .ok w ∧ v ≠ w := by
  intro doc v w bytes
  let pair : DataEntry := ⟨"Pair", #v[1, 0, 0, 0, 0, 0, 0, 0], .defined "Pair"⟩
  let p : Program := ⟨doc, ⟨[("Pair", .struct [⟨"a", .prim .bool⟩, ⟨"a", .prim .bool⟩])]⟩, [pair], [], []⟩
  have hv : (Identified.account pair).Shaped p.layouts v := ⟨rfl, rfl, rfl, rfl, rfl⟩
  have hw : (Identified.account pair).Shaped p.layouts w := ⟨rfl, rfl, rfl, rfl, rfl⟩
  refine ⟨p, .account pair, rfl, rfl, ?_, rfl, by simp [v, w]⟩
  refine List.forall_mem_cons.mpr ⟨⟨hv, by decide, .account rfl⟩, ?_⟩
  exact List.forall_mem_singleton.mpr ⟨hw, by decide, .account rfl⟩

end Program

end WireSchema
