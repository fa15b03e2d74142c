import WireSchema.Proofs.Program.Lookup

/-!
# Data that is recognised

Data is recognised by its discriminator and asked for by name, and the two need
not agree: no document has to keep its discriminators apart, nor the names of
its accounts and events. What comes first in the list of entries decides. Data
is recognised as what it was encoded as exactly when nothing before that entry
has its discriminator; data that was recognised and read is read by name to the
same value exactly when the first entry of that name has the discriminator.
-/

namespace WireSchema

set_option autoImplicit false

open Schema

/-- Where one search ends another finds something at the latest. -/
theorem find?_eq_getD_of_find? {α : Type} {items : List α} {q r : α → Bool} {a : α}
    (hq : items.find? q = some a) (hr : r a = true) :
    items.find? r = some (((items.takeWhile (!q ·)).find? r).getD a) := by
  obtain ⟨ha, before, behind, rfl, hbefore⟩ := List.find?_eq_some_iff_append.mp hq
  have htake : (before ++ a :: behind).takeWhile (!q ·) = before := by
    rw [List.takeWhile_append_of_pos hbefore, List.takeWhile_cons_of_neg (by simpa using ha), List.append_nil]
  rw [htake, List.find?_append, List.find?_cons_of_pos hr]
  cases before.find? r <;> rfl

namespace Program

variable {p : Program} {kind : EntityKind} {name : String} {e : Identified} {data bytes : List UInt8}
  {v : Value}

/-- What is listed before the entry of a name. -/
def earlier (p : Program) (kind : EntityKind) (name : String) : List Identified :=
  p.listed.takeWhile (!·.isCalled kind name)

/-- Data is recognised as the first entry with its discriminator. -/
theorem identify_of_encodes (h : p.Encodes kind name v bytes) :
    ∃ e found, p.entry kind name = .ok e ∧ p.identify bytes = .ok found
      ∧ p.listed.find? (·.discriminator = e.discriminator) = some found
      ∧ ((found.kind = kind ∧ found.name = name) ↔
        ∀ other ∈ p.earlier kind name, other.discriminator ≠ e.discriminator) := by
  obtain ⟨e, behind, hentry, -, rfl⟩ := h.holds
  have hcalled := entry_eq_ok_iff.mp hentry
  have hfind := find?_eq_getD_of_find? (r := (·.discriminator = e.discriminator)) hcalled (by simp)
  refine ⟨e, _, hentry, identify_eq_ok_iff.mpr ⟨_, Reader.take_discriminator _ _, hfind⟩, hfind, ?_⟩
  rw [← earlier, ← Identified.isCalled_iff]
  cases hearlier : (p.earlier kind name).find? (·.discriminator = e.discriminator) with
  | none =>
    have hnone : ∀ other ∈ p.earlier kind name, other.discriminator ≠ e.discriminator := by
      simpa using hearlier
    exact iff_of_true (List.find?_some hcalled) hnone
  | some found =>
    have hmem := List.mem_of_find?_eq_some hearlier
    have hd : found.discriminator = e.discriminator := by simpa using List.find?_some hearlier
    have hother : found.isCalled kind name = false := by
      simpa using List.all_eq_true.mp List.all_takeWhile found hmem
    refine iff_of_false ?_ fun hall => hall found hmem hd
    rw [Option.getD_some, hother]
    exact Bool.false_ne_true

/-- An account and an event of one name, told apart by their discriminators. -/
theorem identify_of_encodes_event :
    let doc : Document := { Document.ofTypes [.record "Pool" [] [("fee", .prim (.scalar .u8))]] with
      accounts := [⟨"Pool", [1, 0, 0, 0, 0, 0, 0, 0]⟩]
      events := [⟨"Pool", [2, 0, 0, 0, 0, 0, 0, 0]⟩] }
    let bytes : List UInt8 := [2, 0, 0, 0, 0, 0, 0, 0, 7]
    ∃ p found, ofDocument doc = .ok p ∧ p.Encodes .event "Pool" (.struct [("fee", .ofNat .u8 7)]) bytes
      ∧ p.identify bytes = .ok found ∧ found.kind = .event ∧ found.name = "Pool" := by
  intro doc bytes
  let event : DataEntry := ⟨"Pool", #v[2, 0, 0, 0, 0, 0, 0, 0], .defined "Pool"⟩
  let p : Program := ⟨doc, ⟨[("Pool", .struct [⟨"fee", .prim (.scalar .u8)⟩])]⟩,
    [⟨"Pool", #v[1, 0, 0, 0, 0, 0, 0, 0], .defined "Pool"⟩], [event], []⟩
  have hv : p.Encodes .event "Pool" (.struct [("fee", .ofNat .u8 7)]) bytes := .event rfl
  obtain ⟨e, found, hentry, hidentify, -, hfound⟩ := identify_of_encodes hv
  have hevent : p.entry .event "Pool" = .ok (.event event) := rfl
  rw [hevent] at hentry
  cases hentry
  exact ⟨p, found, rfl, hv, hidentify, hfound.mpr (by decide +kernel)⟩

/-- With one discriminator for both, the event is taken for the account. -/
theorem identify_ambiguous :
    let doc : Document := { Document.ofTypes [.record "Pool" [] [("fee", .prim (.scalar .u8))]] with
      accounts := [⟨"Pool", [1, 0, 0, 0, 0, 0, 0, 0]⟩]
      events := [⟨"Pool", [1, 0, 0, 0, 0, 0, 0, 0]⟩] }
    let bytes : List UInt8 := [1, 0, 0, 0, 0, 0, 0, 0, 7]
    ∃ p found, ofDocument doc = .ok p ∧ p.Encodes .event "Pool" (.struct [("fee", .ofNat .u8 7)]) bytes
      ∧ p.identify bytes = .ok found ∧ found.kind ≠ .event := by
  intro doc bytes
  let entry : DataEntry := ⟨"Pool", #v[1, 0, 0, 0, 0, 0, 0, 0], .defined "Pool"⟩
  let p : Program := ⟨doc, ⟨[("Pool", .struct [⟨"fee", .prim (.scalar .u8)⟩])]⟩, [entry], [entry], []⟩
  exact ⟨p, .account entry, rfl, .event rfl, rfl, fun h => nomatch h⟩

theorem runOn_discriminator_of_ne {α : Type} {decoder : Decoder α} {expected d : Discriminator}
    (hd : Discriminator.ofBytes? (data.take 8) = some d) (hne : d ≠ expected) :
    Decoder.runOn (do
      Reader.discriminator expected
      decoder) data = .error (.discriminatorMismatch expected d) := by
  have hrun := Reader.run_discriminator hd expected 0
  rw [if_neg hne] at hrun
  rw [Decoder.runOn, Reader.ofBytes, Step.run_bind_error hrun]

theorem read_of_ne {d : Discriminator} (hd : Discriminator.ofBytes? (data.take 8) = some d)
    (hne : d ≠ e.discriminator) :
    p.read e data = .error (.discriminatorMismatch e.discriminator d) := by
  cases e with
  | account entry => exact congrArg (Prod.fst <$> ·) (runOn_discriminator_of_ne hd hne)
  | event entry => exact congrArg (Prod.fst <$> ·) (runOn_discriminator_of_ne hd hne)
  | instruction entry => exact congrArg (Prod.fst <$> ·) (runOn_discriminator_of_ne hd hne)

/-- What was recognised and read is read by name to the same value, unless its name stands for another
entry. -/
theorem decodeAs_of_decodeAny {doc : Document} (hp : ofDocument doc = .ok p) {found : Identified}
    (h : p.decodeAny data = .ok (found, v)) :
    ∃ e, p.entry found.kind found.name = .ok e
      ∧ p.decodeAs found.kind found.name data
        = (if e.discriminator = found.discriminator then .ok v
          else .error (.discriminatorMismatch e.discriminator found.discriminator))
      ∧ (found.kind = .instruction → e.discriminator = found.discriminator) := by
  rw [decodeAny_eq] at h
  obtain ⟨recognised, hidentify, h⟩ := Step.ok_of_bind h
  obtain ⟨w, hread, h⟩ := Step.ok_of_bind h
  cases h
  obtain ⟨d, htake, hfind⟩ := identify_eq_ok_iff.mp hidentify
  have hmem := List.mem_of_find?_eq_some hfind
  have hd : found.discriminator = d := by simpa using List.find?_some hfind
  -- the name stands for some entry, as one is called so
  have hsome : (p.listed.find? (·.isCalled found.kind found.name)).isSome = true :=
    List.find?_isSome.mpr ⟨found, hmem, Identified.isCalled_iff.mpr ⟨rfl, rfl⟩⟩
  obtain ⟨e, hcalled⟩ := Option.isSome_iff_exists.mp hsome
  have hentry := entry_eq_ok_iff.mpr hcalled
  obtain ⟨hkind, hname⟩ := Identified.isCalled_iff.mp (List.find?_some hcalled)
  have hext := (built_of_ofDocument hp).ext (List.mem_of_find?_eq_some hcalled) hmem hkind hname
  refine ⟨e, hentry, ?_, fun hix => by rw [hext (.inl (hkind.trans hix))]⟩
  rw [decodeAs_of_entry hentry]
  split
  · next hsame => rw [hext (.inr hsame), hread]
  · next hne =>
    rw [hd] at hne ⊢
    exact read_of_ne htake (Ne.symm hne)

/-- Of two accounts with one name the first is asked for. -/
theorem decodeAs_of_decodeAny_first :
    let doc : Document := { Document.ofTypes [.record "Pool" [] [("fee", .prim (.scalar .u8))]] with
      accounts := [⟨"Pool", [1, 0, 0, 0, 0, 0, 0, 0]⟩, ⟨"Pool", [2, 0, 0, 0, 0, 0, 0, 0]⟩] }
    let data : List UInt8 := [1, 0, 0, 0, 0, 0, 0, 0, 7]
    let v : Value := .struct [("fee", .ofNat .u8 7)]
    ∃ p found, ofDocument doc = .ok p ∧ p.decodeAny data = .ok (found, v)
      ∧ p.decodeAs found.kind found.name data = .ok v := by
  intro doc data v
  let pool : DataEntry := ⟨"Pool", #v[1, 0, 0, 0, 0, 0, 0, 0], .defined "Pool"⟩
  let p : Program := ⟨doc, ⟨[("Pool", .struct [⟨"fee", .prim (.scalar .u8)⟩])]⟩,
    [pool, ⟨"Pool", #v[2, 0, 0, 0, 0, 0, 0, 0], .defined "Pool"⟩], [], []⟩
  have hp : ofDocument doc = .ok p := rfl
  have hany : p.decodeAny data = .ok (.account pool, v) := rfl
  obtain ⟨e, hentry, hdecode, -⟩ := decodeAs_of_decodeAny hp hany
  have hpool : p.entry .account "Pool" = .ok (.account pool) := rfl
  rw [show (Identified.account pool).kind = .account from rfl,
    show (Identified.account pool).name = "Pool" from rfl, hpool] at hentry
  cases hentry
  rw [if_pos rfl] at hdecode
  exact ⟨p, .account pool, hp, hany, hdecode⟩

/-- The second is recognised, but asking for it by name gives the first. -/
theorem decodeAs_second_refused :
    let doc : Document := { Document.ofTypes [.record "Pool" [] [("fee", .prim (.scalar .u8))]] with
      accounts := [⟨"Pool", [1, 0, 0, 0, 0, 0, 0, 0]⟩, ⟨"Pool", [2, 0, 0, 0, 0, 0, 0, 0]⟩] }
    let data : List UInt8 := [2, 0, 0, 0, 0, 0, 0, 0, 7]
    ∃ p found v, ofDocument doc = .ok p ∧ p.decodeAny data = .ok (found, v)
      ∧ found.kind = .account ∧ found.name = "Pool"
      ∧ p.decodeAccount "Pool" data
        = .error (.discriminatorMismatch #v[1, 0, 0, 0, 0, 0, 0, 0] #v[2, 0, 0, 0, 0, 0, 0, 0]) := by
  intro doc data
  let second : DataEntry := ⟨"Pool", #v[2, 0, 0, 0, 0, 0, 0, 0], .defined "Pool"⟩
  let p : Program := ⟨doc, ⟨[("Pool", .struct [⟨"fee", .prim (.scalar .u8)⟩])]⟩,
    [⟨"Pool", #v[1, 0, 0, 0, 0, 0, 0, 0], .defined "Pool"⟩, second], [], []⟩
  exact ⟨p, .account second, .struct [("fee", .ofNat .u8 7)], rfl, rfl, rfl, rfl, rfl⟩

end Program

end WireSchema
