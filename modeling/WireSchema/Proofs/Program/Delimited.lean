import WireSchema.Proofs.Codec.Delimited
import WireSchema.Proofs.Program.Lookup

/-!
# Where the data of an entry ends

What was decoded is decoded again whatever is put behind it, and nothing less
than it is decoded. So the data of accounts and events may have padding, and
instructions refuse it; data that was cut is short of bytes and never read as
something else. Data that was not decoded is not spoken of.
-/

namespace WireSchema

set_option autoImplicit false

open Schema Decoder

/-- Bytes behind what was read make no difference, and a cut within it is an end of data. -/
theorem Decoder.Delimits.run {α : Type} {d : Decoder α} (hd : d.Delimits) {r s : Reader} {a : α}
    (h : d.run r = (.ok a, s)) : (∀ more, d.run ⟨r.index, r.rest ++ more⟩ = (.ok a, ⟨s.index, s.rest ++ more⟩))
      ∧ ∀ k < s.index - r.index, d.RunsOut ⟨r.index, r.rest.take k⟩ := by
  obtain ⟨bytes, hrest, hindex, htakes⟩ := hd r a s h
  constructor
  · intro more
    rw [hrest, List.append_assoc, hindex]
    exact htakes.whole r.index (s.rest ++ more)
  · intro k hk
    have hcut : k < bytes.length := by omega
    rw [hrest, List.take_append_of_le_length (Nat.le_of_lt hcut)]
    exact htakes.cut r.index k hcut

namespace Identified

/-- The discriminator of an entry and the value behind it, whatever follows. -/
def contents (set : LayoutSet) : Identified → Decoder Value
  | .account entry | .event entry => do
    Reader.discriminator entry.discriminator
    set.decodeFrom entry.codec
  | .instruction entry => do
    Reader.discriminator entry.discriminator
    return .struct (← set.decodeFields entry.args)

theorem delimits_contents (set : LayoutSet) (e : Identified) : (e.contents set).Delimits := by
  cases e with
  | account entry => exact (Reader.delimits_discriminator _).bind fun _ => set.delimits_readAt _ _
  | event entry => exact (Reader.delimits_discriminator _).bind fun _ => set.delimits_readAt _ _
  | instruction entry =>
    have hargs := (delimits_readFields (set.delimits_readAt (maxDepth + 1)) entry.args).map Value.struct
    exact (Reader.delimits_discriminator _).bind fun _ => hargs

end Identified

namespace Program

open Identified

variable {p : Program} {kind : EntityKind} {name : String} {data : List UInt8} {v : Value}

theorem decodeEntry_eq (p : Program) (entry : DataEntry) (data : List UInt8) :
    p.decodeEntry entry data = match ((Identified.account entry).contents p.layouts).run (Reader.ofBytes data) with
      | (.ok v, _) => .ok v
      | (.error error, _) => .error error := by
  have hentry : p.decodeEntry entry data
      = Prod.fst <$> Decoder.runOn ((Identified.account entry).contents p.layouts) data := by
    simp only [decodeEntry, LayoutSet.decodePrefixed, Identified.contents, Bool.false_eq_true, if_false, bind_pure]
  rw [hentry, runOn]
  rcases ((Identified.account entry).contents p.layouts).run (Reader.ofBytes data) with ⟨error | v, r⟩ <;> rfl

/-- An instruction must take all of its data, an account and an event need not. -/
theorem read_eq (p : Program) (e : Identified) (data : List UInt8) :
    p.read e data = match (e.contents p.layouts).run (Reader.ofBytes data) with
      | (.ok v, r) =>
        if e.kind = .instruction ∧ r.isEmpty = false then .error (.trailingBytes r.remaining) else .ok v
      | (.error error, _) => .error error := by
  cases e with
  | account entry => exact p.decodeEntry_eq entry data
  | event entry => exact p.decodeEntry_eq entry data
  | instruction entry =>
    have hargs : p.read (.instruction entry) data = Prod.fst <$> Decoder.runOn (do
        let v ← (Identified.instruction entry).contents p.layouts
        Reader.finished
        return v) data := by
      simp only [read, decodeArgs, Identified.contents, bind_assoc, pure_bind]
    rw [hargs, runOn_finished]
    rcases ((Identified.instruction entry).contents p.layouts).run (Reader.ofBytes data) with ⟨error | v, r⟩
    · rfl
    · cases hempty : r.isEmpty <;> simp [hempty, Identified.kind]

theorem decodeAs_eq_ok (h : p.decodeAs kind name data = .ok v) :
    ∃ e r, p.entry kind name = .ok e ∧ (e.contents p.layouts).run (Reader.ofBytes data) = (.ok v, r)
      ∧ (kind = .instruction → r.isEmpty = true) := by
  rw [decodeAs_eq] at h
  obtain ⟨e, hentry, h⟩ := Step.ok_of_bind h
  have hkind : e.kind = kind := (isCalled_iff.mp (List.find?_some (entry_eq_ok_iff.mp hentry))).1
  rw [read_eq] at h
  rcases hrun : (e.contents p.layouts).run (Reader.ofBytes data) with ⟨error | w, r⟩
  · rw [hrun] at h
    cases h
  · rw [hrun] at h
    dsimp only at h
    split at h
    · cases h
    · next hfinished =>
      cases h
      refine ⟨e, r, hentry, hrun, fun hinstruction => ?_⟩
      simpa [hkind, hinstruction] using hfinished

/-- The data of an entry ends at one place: cut before it, there is too little to read; behind it, accounts and
events may have anything and instructions nothing. -/
theorem decodes_delimited :
    (∀ (set : LayoutSet) (codec : Codec) (r s : Reader) (v : Value),
      (set.decodeFrom codec).run r = (.ok v, s) →
        (∀ more, (set.decodeFrom codec).run ⟨r.index, r.rest ++ more⟩ = (.ok v, ⟨s.index, s.rest ++ more⟩))
        ∧ ∀ k < s.index - r.index, (set.decodeFrom codec).RunsOut ⟨r.index, r.rest.take k⟩)
    ∧ ∀ (p : Program) (kind : EntityKind) (name : String) (data : List UInt8) (v : Value),
      p.decodeAs kind name data = .ok v → ∃ last ≤ data.length,
        (∀ k < last, ∃ needed left, p.decodeAs kind name (data.take k) = .error (.unexpectedEnd needed left))
        ∧ (kind ≠ .instruction → ∀ padding, p.decodeAs kind name (data.take last ++ padding) = .ok v)
        ∧ (kind = .instruction → last = data.length ∧ ∀ more, more ≠ [] →
          p.decodeAs kind name (data ++ more) = .error (.trailingBytes more.length)) := by
  refine ⟨fun set codec r s v h => (set.delimits_readAt _ codec).run h, fun p kind name data v h => ?_⟩
  obtain ⟨e, r, hentry, hrun, hfinished⟩ := decodeAs_eq_ok h
  have hkind : e.kind = kind := (isCalled_iff.mp (List.find?_some (entry_eq_ok_iff.mp hentry))).1
  obtain ⟨bytes, hrest, -, htakes⟩ := e.delimits_contents p.layouts _ _ _ hrun
  have hdata : data = bytes ++ r.rest := hrest
  have hread : ∀ more, p.decodeAs kind name (bytes ++ more)
      = if e.kind = .instruction ∧ more.isEmpty = false then .error (.trailingBytes more.length) else .ok v := by
    intro more
    rw [decodeAs_of_entry hentry, read_eq, Reader.ofBytes, htakes.whole]
    rfl
  refine ⟨bytes.length, ?_, fun k hk => ?_, fun hne padding => ?_, fun hinstruction => ?_⟩
  · rw [hdata, List.length_append]
    exact Nat.le_add_right _ _
  · obtain ⟨needed, left, s, hcut⟩ := htakes.cut 0 k hk
    refine ⟨needed, left, ?_⟩
    rw [hdata, List.take_append_of_le_length (Nat.le_of_lt hk), decodeAs_of_entry hentry, read_eq, Reader.ofBytes, hcut]
  · rw [hdata, List.take_left, hread, if_neg]
    exact fun hall => hne (hkind.symm.trans hall.1)
  · have hnothing : r.rest = [] := List.isEmpty_iff.mp (hfinished hinstruction)
    rw [hnothing, List.append_nil] at hdata
    refine ⟨by rw [hdata], fun more hmore => ?_⟩
    rw [hdata, hread, if_pos ⟨hkind.trans hinstruction, by simpa using hmore⟩]

/-- A padded account with a text, an instruction with one argument, and a list inside of other data. -/
theorem decodes_delimited_padded :
    let doc : Document := { Document.ofTypes [.record "Note" [] [("text", .prim .string)]] with
      accounts := [⟨"Note", [1, 0, 0, 0, 0, 0, 0, 0]⟩]
      instructions := [⟨"go", [], [2, 0, 0, 0, 0, 0, 0, 0], [], [⟨"far", [], .prim (.scalar .u16)⟩], none⟩] }
    let note : List UInt8 := [1, 0, 0, 0, 0, 0, 0, 0, 2, 0, 0, 0, 104, 105, 0, 0]
    let call : List UInt8 := [2, 0, 0, 0, 0, 0, 0, 0, 7, 0]
    let flags : Decoder Value := LayoutSet.empty.decodeFrom (.vec (.prim .bool))
    ∃ p, ofDocument doc = .ok p
      ∧ p.decodeAs .account "Note" note = .ok (.struct [("text", .string "hi")])
      ∧ (∃ last ≤ 16, (∀ k < last, ∃ needed left,
          p.decodeAs .account "Note" (note.take k) = .error (.unexpectedEnd needed left))
        ∧ ∀ padding, p.decodeAs .account "Note" (note.take last ++ padding) = .ok (.struct [("text", .string "hi")]))
      ∧ p.decodeAs .instruction "go" call = .ok (.struct [("far", .ofNat .u16 7)])
      ∧ p.decodeAs .instruction "go" (call ++ [0]) = .error (.trailingBytes 1)
      ∧ flags.run ⟨5, [1, 0, 0, 0, 1, 9]⟩ = (.ok (.vec [.bool true]), ⟨10, [9]⟩)
      ∧ flags.RunsOut ⟨5, [1, 0, 0]⟩ := by
  intro doc note call flags
  let p : Program := ⟨doc, ⟨[("Note", .struct [⟨"text", .prim .string⟩])]⟩,
    [⟨"Note", #v[1, 0, 0, 0, 0, 0, 0, 0], .defined "Note"⟩], [],
    [⟨"go", #v[2, 0, 0, 0, 0, 0, 0, 0], [⟨"far", .prim (.scalar .u16)⟩], none⟩]⟩
  have hnote : p.decodeAs .account "Note" note = .ok (.struct [("text", .string "hi")]) := rfl
  have hcall : p.decodeAs .instruction "go" call = .ok (.struct [("far", .ofNat .u16 7)]) := rfl
  have hflags : flags.run ⟨5, [1, 0, 0, 0, 1, 9]⟩ = (.ok (.vec [.bool true]), ⟨10, [9]⟩) := rfl
  obtain ⟨hrun, hdecode⟩ := decodes_delimited
  obtain ⟨last, hlast, hcut, hpadding, -⟩ := hdecode p _ _ _ _ hnote
  obtain ⟨_, -, -, -, hmore⟩ := hdecode p _ _ _ _ hcall
  obtain ⟨-, hshort⟩ := hrun _ _ _ _ _ hflags
  exact ⟨p, rfl, hnote, ⟨last, hlast, hcut, hpadding (fun h => nomatch h)⟩, hcall,
    (hmore rfl).2 [0] (List.cons_ne_nil 0 []), hflags, hshort 3 (by decide)⟩

end Program

end WireSchema
