import Mathlib.Data.List.Nodup
import WireSchema.Program.Dispatch
import WireSchema.Proofs.Codec.Output
import WireSchema.Proofs.Codec.Reading
import WireSchema.Proofs.Derivation.Programs
import WireSchema.Proofs.Schema.Validation

/-!
# The entries of a program

Accounts, events and instructions in one list, in the order in which data is
recognised. Whether an entry is looked for by its name or by its discriminator,
the first in this list is found. Names of instructions are distinct; of two
accounts or events with one name only the first can be asked for.
-/

namespace WireSchema

set_option autoImplicit false

open Schema Encoder

namespace Identified

def discriminator : Identified → Discriminator
  | .account entry | .event entry => entry.discriminator
  | .instruction entry => entry.discriminator

def isCalled (kind : EntityKind) (name : String) (e : Identified) : Bool :=
  e.kind = kind ∧ e.name = name

@[simp] theorem isCalled_iff {kind : EntityKind} {name : String} {e : Identified} :
    e.isCalled kind name = true ↔ e.kind = kind ∧ e.name = name :=
  decide_eq_true_iff

end Identified

namespace Program

variable {p : Program} {kind : EntityKind} {name : String} {e other : Identified} {data : List UInt8}

/-- All entries, accounts before events and events before instructions. -/
def listed (p : Program) : List Identified :=
  p.accounts.map .account ++ p.events.map .event ++ p.instructions.map .instruction

/-- The entry that a kind and a name stand for. -/
def entry (p : Program) : EntityKind → String → Except CodecError Identified
  | .account, name => .account <$> p.account name
  | .event, name => .event <$> p.event name
  | .instruction, name => .instruction <$> p.instruction name

theorem find?_listed (p : Program) (q : Identified → Bool) :
    p.listed.find? q = ((p.accounts.find? fun a => q (.account a)).map .account).or
      (((p.events.find? fun e => q (.event e)).map .event).or
        ((p.instructions.find? fun ix => q (.instruction ix)).map .instruction)) := by
  simp only [listed, List.find?_append, List.find?_map, Option.or_assoc]
  rfl

theorem find?_isCalled (p : Program) (kind : EntityKind) (name : String) :
    p.listed.find? (·.isCalled kind name) = match kind with
      | .account => (p.accounts.find? (·.name = name)).map .account
      | .event => (p.events.find? (·.name = name)).map .event
      | .instruction => (p.instructions.find? (·.name = name)).map .instruction := by
  have hnone {α : Type} (entries : List α) : entries.find? (fun _ => false) = none :=
    List.find?_eq_none.mpr fun _ _ => Bool.false_ne_true
  rw [find?_listed]
  cases kind <;> simp [Identified.isCalled, Identified.kind, Identified.name, hnone]

/-- The entry of a name is the first that is called so. -/
theorem entry_eq (p : Program) (kind : EntityKind) (name : String) :
    p.entry kind name = match p.listed.find? (·.isCalled kind name) with
      | some e => .ok e
      | none => .error (.unknownEntity kind.label name) := by
  rw [find?_isCalled]
  cases kind with
  | account =>
    rw [entry, account]
    cases p.accounts.find? (·.name = name) <;> rfl
  | event =>
    rw [entry, event]
    cases p.events.find? (·.name = name) <;> rfl
  | instruction =>
    rw [entry, instruction]
    cases p.instructions.find? (·.name = name) <;> rfl

theorem entry_eq_ok_iff : p.entry kind name = .ok e ↔ p.listed.find? (·.isCalled kind name) = some e := by
  rw [entry_eq]
  cases p.listed.find? (·.isCalled kind name) <;> simp

theorem withDiscriminator?_eq (p : Program) (d : Discriminator) :
    p.withDiscriminator? d = p.listed.find? (·.discriminator = d) := by
  rw [find?_listed]
  rfl

theorem identify_eq_ok_iff : p.identify data = .ok e ↔
    ∃ d, Discriminator.ofBytes? (data.take 8) = some d ∧ p.listed.find? (·.discriminator = d) = some e := by
  unfold identify
  simp only [withDiscriminator?_eq]
  cases hd : Discriminator.ofBytes? (data.take 8) with
  | none => simp
  | some d =>
    dsimp only
    cases hfind : p.listed.find? (·.discriminator = d) <;> simp [hfind]

section Reading

/-- Read some data as an entry. -/
def read (p : Program) : Identified → List UInt8 → Except CodecError Value
  | .account entry, data | .event entry, data => p.decodeEntry entry data
  | .instruction entry, data => p.decodeArgs entry data

def decodeAs (p : Program) : EntityKind → String → List UInt8 → Except CodecError Value
  | .account => p.decodeAccount
  | .event => p.decodeEvent
  | .instruction => p.decodeInstruction

theorem decodeAs_eq (p : Program) (kind : EntityKind) (name : String) (data : List UInt8) :
    p.decodeAs kind name data = (do p.read (← p.entry kind name) data) := by
  cases kind with
  | account =>
    rw [decodeAs, decodeAccount, entry]
    cases p.account name <;> rfl
  | event =>
    rw [decodeAs, decodeEvent, entry]
    cases p.event name <;> rfl
  | instruction =>
    rw [decodeAs, decodeInstruction, entry]
    cases p.instruction name <;> rfl

theorem decodeAs_of_entry (h : p.entry kind name = .ok e) : p.decodeAs kind name data = p.read e data := by
  rw [decodeAs_eq, h]
  rfl

theorem decodeAny_eq (p : Program) (data : List UInt8) :
    p.decodeAny data = do
      let e ← p.identify data
      return (e, ← p.read e data) := by
  unfold decodeAny
  cases p.identify data with
  | error error => rfl
  | ok e => cases e <;> rfl

end Reading

section Writing

/-- The value is encoded under a kind and a name; that of an instruction has its arguments as fields. -/
inductive Encodes (p : Program) : EntityKind → String → Value → List UInt8 → Prop
  | account {name : String} {v : Value} {bytes : List UInt8} :
      p.encodeAccount name v = .ok bytes → Encodes p .account name v bytes
  | event {name : String} {v : Value} {bytes : List UInt8} :
      p.encodeEvent name v = .ok bytes → Encodes p .event name v bytes
  | instruction {name : String} {args : List (String × Value)} {bytes : List UInt8} :
      p.encodeInstruction name args = .ok bytes → Encodes p .instruction name (.struct args) bytes

/-- The value is written as these bytes behind the discriminator of an entry. -/
inductive Holds (p : Program) : Identified → Value → List UInt8 → Prop
  | account {entry : DataEntry} {v : Value} {bytes : List UInt8} :
      Writes (v.write p.layouts entry.codec) bytes → Holds p (.account entry) v bytes
  | event {entry : DataEntry} {v : Value} {bytes : List UInt8} :
      Writes (v.write p.layouts entry.codec) bytes → Holds p (.event entry) v bytes
  | instruction {entry : InstructionEntry} {args : List (String × Value)} {bytes : List UInt8} :
      Writes (writeFields (fieldWriters p.layouts args) entry.args) bytes →
      Holds p (.instruction entry) (.struct args) bytes

variable {v : Value} {bytes : List UInt8}

/-- What an encoder writes behind a discriminator. -/
theorem bytes_prefixed {encoder : Encoder} (hencoder : encoder.Appends) {d : Discriminator}
    (h : Encoder.bytes (do
      emit d.toList
      encoder) = .ok bytes) : ∃ behind, encoder.Writes behind ∧ bytes = d.toList ++ behind := by
  have hwrites := ((appends_emit d.toList).bind hencoder).writes_of_bytes h
  obtain ⟨x, behind, hx, hbehind, rfl⟩ := (appends_emit _).writes_bind hencoder hwrites
  rw [(Does.unique hx (writes_emit _)).1]
  exact ⟨behind, hbehind, rfl⟩

theorem Encodes.holds (h : p.Encodes kind name v bytes) : ∃ e behind, p.entry kind name = .ok e
    ∧ p.Holds e v behind ∧ bytes = e.discriminator.toList ++ behind := by
  cases h with
  | account h =>
    obtain ⟨found, hfound, h⟩ := Step.ok_of_bind h
    obtain ⟨behind, hwrites, hbytes⟩ := bytes_prefixed (appends_write v found.codec) h
    exact ⟨.account found, behind, by rw [entry, hfound]; rfl, .account hwrites, hbytes⟩
  | event h =>
    obtain ⟨found, hfound, h⟩ := Step.ok_of_bind h
    obtain ⟨behind, hwrites, hbytes⟩ := bytes_prefixed (appends_write v found.codec) h
    exact ⟨.event found, behind, by rw [entry, hfound]; rfl, .event hwrites, hbytes⟩
  | @instruction _ args _ h =>
    obtain ⟨found, hfound, h⟩ := Step.ok_of_bind h
    have happends : Appends (writeFields (fieldWriters p.layouts args) found.args) :=
      appends_writeFields (fun f _ => appends_write f.2) found.args
    obtain ⟨behind, hwrites, hbytes⟩ := bytes_prefixed happends h
    exact ⟨.instruction found, behind, by rw [entry, hfound]; rfl, .instruction hwrites, hbytes⟩

end Writing

section Built

variable {doc : Document}

theorem of_dataEntry {layouts : LayoutSet} {entity : Entity} {found : DataEntry}
    (h : dataEntry layouts kind entity = .ok found) :
    found.name = entity.name ∧ found.codec = .defined found.name ∧ layouts.contains found.name = true := by
  unfold dataEntry at h
  split at h
  · next hcontains =>
    obtain ⟨d, -, h⟩ := Step.ok_of_bind h
    cases h
    exact ⟨rfl, rfl, hcontains⟩
  · cases h

theorem of_dataEntries {layouts : LayoutSet} {entities : List Entity} {entries : List DataEntry}
    (h : entities.mapM (dataEntry layouts kind) = .ok entries) {found : DataEntry} (hfound : found ∈ entries) :
    found.codec = .defined found.name ∧ layouts.contains found.name = true := by
  obtain ⟨entity, -, hentity⟩ := Step.exists_of_mem_mapM h hfound
  exact (of_dataEntry hentity).2

theorem name_of_instructionEntry {registry : Registry} {ix : Instruction} {found : InstructionEntry}
    {s t : DerivationState} (h : (instructionEntry registry ix).run s = (.ok found, t)) :
    found.name = ix.name := by
  unfold instructionEntry at h
  obtain ⟨args, u, -, h⟩ := Step.ok_of_run_bind h
  cases hreturns : ix.returns with
  | none =>
    simp only [hreturns] at h
    obtain ⟨returns, w, -, h⟩ := Step.ok_of_run_bind h
    obtain ⟨d, x, -, h⟩ := Step.ok_of_run_bind h
    cases h
    rfl
  | some ty =>
    simp only [hreturns] at h
    obtain ⟨returns, w, -, h⟩ := Step.ok_of_run_bind h
    obtain ⟨d, x, -, h⟩ := Step.ok_of_run_bind h
    cases h
    rfl

theorem names_of_instructionEntries {registry : Registry} {instructions : List Instruction}
    {entries : List InstructionEntry} {s t : DerivationState}
    (h : ExceptT.run (instructions.mapM (instructionEntry registry)) s = (.ok entries, t)) :
    entries.map InstructionEntry.name = instructions.map Instruction.name := by
  induction instructions generalizing s entries with
  | nil =>
    cases h
    rfl
  | cons ix rest ih =>
    rw [List.mapM_cons] at h
    obtain ⟨found, u, hfound, h⟩ := Step.ok_of_run_bind h
    obtain ⟨others, w, hothers, h⟩ := Step.ok_of_run_bind h
    cases h
    rw [List.map_cons, List.map_cons, name_of_instructionEntry hfound, ih hothers]

theorem Built.nodup_instructions (h : Built doc p) : (p.instructions.map InstructionEntry.name).Nodup := by
  obtain ⟨s, t, -, hrun, -⟩ := runs_of_derive h.derived
  rw [names_of_instructionEntries hrun]
  exact Document.nodup_instructions_of_validate h.valid

theorem Built.data_ext (h : Built doc p) {a b : DataEntry}
    (hab : a ∈ p.accounts ∧ b ∈ p.accounts ∨ a ∈ p.events ∧ b ∈ p.events) (hname : a.name = b.name)
    (hd : a.discriminator = b.discriminator) : a = b := by
  have hcodecs : a.codec = .defined a.name ∧ b.codec = .defined b.name := by
    rcases hab with ⟨ha, hb⟩ | ⟨ha, hb⟩
    · exact ⟨(of_dataEntries h.accounts ha).1, (of_dataEntries h.accounts hb).1⟩
    · exact ⟨(of_dataEntries h.events ha).1, (of_dataEntries h.events hb).1⟩
  rw [← hname] at hcodecs
  have hcodec : a.codec = b.codec := hcodecs.1.trans hcodecs.2.symm
  cases a
  cases b
  cases hname
  cases hd
  cases hcodec
  rfl

/-- An entry is given by its kind, its name and its discriminator, an instruction by its name alone. -/
theorem Built.ext (h : Built doc p) (he : e ∈ p.listed) (hother : other ∈ p.listed)
    (hkind : e.kind = other.kind) (hname : e.name = other.name)
    (hd : e.kind = .instruction ∨ e.discriminator = other.discriminator) : e = other := by
  simp only [listed, List.mem_append, List.mem_map] at he hother
  cases e with
  | account a =>
    cases other with
    | account b =>
      have ha : a ∈ p.accounts := by simpa using he
      have hb : b ∈ p.accounts := by simpa using hother
      rw [h.data_ext (.inl ⟨ha, hb⟩) hname (hd.resolve_left fun h => nomatch h)]
    | event b => cases hkind
    | instruction b => cases hkind
  | event a =>
    cases other with
    | account b => cases hkind
    | event b =>
      have ha : a ∈ p.events := by simpa using he
      have hb : b ∈ p.events := by simpa using hother
      rw [h.data_ext (.inr ⟨ha, hb⟩) hname (hd.resolve_left fun h => nomatch h)]
    | instruction b => cases hkind
  | instruction a =>
    cases other with
    | account b => cases hkind
    | event b => cases hkind
    | instruction b =>
      have ha : a ∈ p.instructions := by simpa using he
      have hb : b ∈ p.instructions := by simpa using hother
      rw [List.inj_on_of_nodup_map h.nodup_instructions ha hb hname]

end Built

end Program

end WireSchema
