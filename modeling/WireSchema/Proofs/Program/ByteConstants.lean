import WireSchema.Program.Constant
import WireSchema.Proofs.Json.Literals
import WireSchema.Proofs.Schema.Trial

/-!
# Bytes as constants

The text of a byte constant is an array of bytes, or the letter `b` and a
string in quotes, which stands for its UTF-8 bytes. Where the quotes are
missing behind the letter, what follows it is taken as it is.
-/

namespace WireSchema.Program

set_option autoImplicit false

open Schema Unicode Json

section Readers

variable {json : Json} {data : List UInt8} {b : UInt8}

@[simp] theorem byte_ofByte (b : UInt8) : ValueReader.byte (ofByte b) = .ok b := by
  have hb : (0 : Int) ≤ b.toNat ∧ (b.toNat : Int) < (256 : Nat) := ⟨Int.natCast_nonneg _, Int.ofNat_lt.mpr b.toNat_lt⟩
  rw [ofByte, ValueReader.byte, ValueReader.natural, if_pos hb, Int.toNat_natCast]
  exact congrArg Except.ok b.ofNat_toNat

theorem eq_ofByte_of_byte (h : ValueReader.byte json = .ok b) : json = ofByte b := by
  cases json with
  | int n =>
    rw [ValueReader.byte, ValueReader.natural] at h
    split at h
    · next hn =>
      obtain rfl : UInt8.ofNat n.toNat = b := Except.ok.inj h
      rw [ofByte, UInt8.toNat_ofNat', Nat.mod_eq_of_lt (by omega), Int.toNat_of_nonneg hn.1]
    · cases h
  | _ => cases h

theorem list_byte_eq_ok_iff : ValueReader.list ValueReader.byte json = .ok data ↔ json = .arr (data.map ofByte) := by
  constructor
  · intro h
    cases json with
    | arr items => rw [eq_map_of_mapM eq_ofByte_of_byte h]
    | _ => cases h
  · rintro rfl
    exact list_map_eq_ok fun b _ => byte_ofByte b

end Readers

section Literals

variable {raw literal : List Char} {data : List UInt8} {text : String}

/-- The texts that stand for bytes. -/
inductive ByteLiteral : List Char → List UInt8 → Prop where
  | array {raw : List Char} {data : List UInt8} : WritesBytes raw data → ByteLiteral raw data
  | text {literal : List Char} {text : String} : Quotes literal text → ByteLiteral ('b' :: literal) (Text.utf8 text)

/-- The letter and a text that does not begin with a quote. -/
def BareText (raw : List Char) (data : List UInt8) : Prop :=
  ∃ rest, raw = 'b' :: rest ∧ rest.head? ≠ some '"' ∧ data = Text.utf8 (String.ofList rest)

theorem head?_of_quotes (h : Quotes literal text) : literal.head? = some '"' := by
  obtain ⟨spelling, rfl, -⟩ := h
  rfl

/-- A text is read from its quotes, or it has none and is taken as it is. -/
theorem unquote?_eq_some_iff (h : ∀ c ∈ literal.getLast?, isBlank c = false) : unquote? literal = some text ↔
    Quotes literal text ∨ literal.head? ≠ some '"' ∧ text = String.ofList literal := by
  by_cases hquote : literal.head? = some '"'
  · obtain ⟨rest, rfl⟩ := List.head?_eq_some_iff.mp hquote
    have hread : unquote? ('"' :: rest) = some text ↔ ofText (String.ofList ('"' :: rest)) = .ok (.str text) := by
      rw [unquote?]
      cases ofText (String.ofList ('"' :: rest)) with
      | error => simp
      | ok json => cases json <;> simp
    rw [hread, ofText_string_iff h]
    exact ⟨.inl, fun h => h.resolve_right fun hbare => hbare.1 rfl⟩
  · have hbare : unquote? literal = some (String.ofList literal) := by
      unfold unquote?
      split
      · exact absurd rfl hquote
      · rfl
    rw [hbare]
    constructor
    · intro heq
      exact .inr ⟨hquote, (Option.some.inj heq).symm⟩
    · rintro (h | ⟨-, rfl⟩)
      · exact absurd (head?_of_quotes h) hquote
      · rfl

theorem byteLiteral_cons_iff : ByteLiteral ('b' :: literal) data ↔
    ∃ text, Quotes literal text ∧ data = Text.utf8 text := by
  constructor
  · intro h
    cases h with
    | array h => cases h
    | text h => exact ⟨_, h, rfl⟩
  · rintro ⟨text, hquotes, rfl⟩
    exact .text hquotes

theorem bytes?_eq_some_iff (h : IsTrimmed raw) : bytes? raw = some data ↔ ByteLiteral raw data ∨ BareText raw data := by
  by_cases hletter : raw.head? = some 'b'
  · obtain ⟨literal, rfl⟩ := List.head?_eq_some_iff.mp hletter
    have hlast : ∀ c ∈ literal.getLast?, isBlank c = false := by
      intro c hc
      apply h.last c
      rw [List.getLast?_cons, Option.mem_def.mp hc]
      rfl
    have hread : bytes? ('b' :: literal) = (unquote? literal).map Text.utf8 := rfl
    rw [hread, Option.map_eq_some_iff, byteLiteral_cons_iff]
    constructor
    · rintro ⟨text, htext, rfl⟩
      rcases (unquote?_eq_some_iff hlast).mp htext with hquotes | ⟨hbare, rfl⟩
      · exact .inl ⟨text, hquotes, rfl⟩
      · exact .inr ⟨literal, rfl, hbare, rfl⟩
    · rintro (⟨text, hquotes, rfl⟩ | ⟨_, ⟨⟩, hbare, rfl⟩)
      · exact ⟨text, (unquote?_eq_some_iff hlast).mpr (.inl hquotes), rfl⟩
      · exact ⟨_, (unquote?_eq_some_iff hlast).mpr (.inr ⟨hbare, rfl⟩), rfl⟩
  · have hread : bytes? raw = some data ↔ ofText (String.ofList raw) = .ok (.arr (data.map ofByte)) := by
      unfold bytes?
      split
      · exact absurd rfl hletter
      · cases ofText (String.ofList raw) with
        | error => simp
        | ok json =>
          rw [Except.ok.injEq, ← list_byte_eq_ok_iff]
          dsimp only
          cases ValueReader.list ValueReader.byte json <;> simp [Except.toOption]
    rw [hread, ofText_bytes_iff h]
    constructor
    · exact fun hbytes => .inl (.array hbytes)
    · rintro ((hbytes | _) | ⟨_, rfl, -⟩)
      · exact hbytes
      · exact absurd rfl hletter
      · exact absurd rfl hletter

end Literals

section Constants

variable {c : Constant} {ty : Ty} {raw : List Char} {data : List UInt8} {v : Value}

/-- The types whose constants are bytes. -/
inductive IsByteType : Ty → Prop where
  | bytes : IsByteType (.prim .bytes)
  | vec : IsByteType (.vec (some (.prim (.scalar .u8))))
  | array (length : Nat) : IsByteType (.array (some (.prim (.scalar .u8))) (.value length))

/-- The bytes as numbers. -/
def byteValues (data : List UInt8) : List Value :=
  data.map fun b => .ofNat .u8 b.toNat

/-- The value that bytes are of a type; an array has a length of its own. -/
inductive HoldsBytes : Ty → List UInt8 → Value → Prop where
  | bytes {data : List UInt8} : HoldsBytes (.prim .bytes) data (.bytes data)
  | vec {data : List UInt8} : HoldsBytes (.vec (some (.prim (.scalar .u8)))) data (.vec (byteValues data))
  | array {data : List UInt8} :
      HoldsBytes (.array (some (.prim (.scalar .u8))) (.value data.length)) data (.array (byteValues data))

theorem literal?_bytes_iff (hty : IsByteType ty) :
    literal? ty raw = some v ↔ ∃ data, bytes? raw = some data ∧ HoldsBytes ty data v := by
  cases hty with
  | bytes =>
    have hread : literal? (.prim .bytes) raw = (bytes? raw).map .bytes := rfl
    rw [hread, Option.map_eq_some_iff]
    constructor
    · rintro ⟨data, hdata, rfl⟩
      exact ⟨data, hdata, .bytes⟩
    · rintro ⟨data, hdata, ⟨⟩⟩
      exact ⟨data, hdata, rfl⟩
  | vec =>
    have hread : literal? (.vec (some (.prim (.scalar .u8)))) raw
        = (bytes? raw).map fun data => .vec (byteValues data) := rfl
    rw [hread, Option.map_eq_some_iff]
    constructor
    · rintro ⟨data, hdata, rfl⟩
      exact ⟨data, hdata, .vec⟩
    · rintro ⟨data, hdata, ⟨⟩⟩
      exact ⟨data, hdata, rfl⟩
  | array length =>
    have hread : literal? (.array (some (.prim (.scalar .u8))) (.value length)) raw
        = (bytes? raw).bind fun data => if data.length = length then some (.array (byteValues data)) else none := rfl
    rw [hread, Option.bind_eq_some_iff]
    constructor
    · rintro ⟨data, hdata, h⟩
      split at h
      · next hlength =>
        obtain rfl := hlength
        obtain rfl := Option.some.inj h
        exact ⟨data, hdata, .array⟩
      · cases h
    · rintro ⟨data, hdata, ⟨⟩⟩
      exact ⟨data, hdata, if_pos rfl⟩

/-- A constant of bytes holds those of its literal, or those of the bare text behind the letter, and from any other
text there is none. -/
theorem constantValue_bytes (hty : IsByteType c.ty) :
    (∀ v, constantValue c = .ok v ↔ ∃ data, HoldsBytes c.ty data v
      ∧ (ByteLiteral (trim c.value.toList) data ∨ BareText (trim c.value.toList) data))
      ∧ ((∀ v, constantValue c ≠ .ok v) → constantValue c = .error (.invalidConstant c.name c.value)) := by
  have hread : ∀ {v}, literal? c.ty (trim c.value.toList) = some v ↔ ∃ data, HoldsBytes c.ty data v
      ∧ (ByteLiteral (trim c.value.toList) data ∨ BareText (trim c.value.toList) data) := by
    intro v
    simp only [literal?_bytes_iff hty, bytes?_eq_some_iff (isTrimmed_trim _), and_comm]
  simp only [← hread]
  unfold constantValue
  cases literal? c.ty (trim c.value.toList) with
  | none => simp
  | some value => simp

/-- Three bytes as a string, one of them escaped, for an array of three bytes. -/
theorem constantValue_bytes_abc :
    let c : Constant := ⟨"TAG", [], .array (some (.prim (.scalar .u8))) (.value 3), " b\"a\\u0062c\""⟩
    IsByteType c.ty ∧ constantValue c = .ok (.array (byteValues [97, 98, 99])) := by
  intro c
  have hty : IsByteType c.ty := .array 3
  have hraw : trim c.value.toList = 'b' :: "\"a\\u0062c\"".toList := by decide +kernel
  have hspells : Spells "a\\u0062c".toList "abc".toList :=
    .plain (by decide) (by decide) (.unit rfl (.plain (by decide) (by decide) .nil))
  have hall : "a\\u0062c".toList.all (fun ch => decide (32 ≤ ch.toNat)) = true := by decide
  have hcontrol : NoControl "a\\u0062c".toList := fun ch hch => of_decide_eq_true (List.all_eq_true.mp hall ch hch)
  have hliteral : ByteLiteral (trim c.value.toList) [97, 98, 99] := by
    rw [hraw]
    exact .text ⟨"a\\u0062c".toList, rfl, hspells, hcontrol⟩
  exact ⟨hty, ((constantValue_bytes hty).1 _).mpr ⟨_, @HoldsBytes.array [97, 98, 99], .inl hliteral⟩⟩

/-- The quotes are missing, and the bytes are those of what follows the letter. -/
theorem constantValue_bare :
    constantValue ⟨"SEED", [], .prim .bytes, "bvault"⟩ = .ok (.bytes (Text.utf8 "vault"))
      ∧ ∀ data, ¬ ByteLiteral (trim "bvault".toList) data := by
  have hraw : trim "bvault".toList = 'b' :: "vault".toList := by decide +kernel
  refine ⟨by rfl, fun data hliteral => ?_⟩
  rw [hraw] at hliteral
  obtain ⟨text, hquotes, -⟩ := byteLiteral_cons_iff.mp hliteral
  cases head?_of_quotes hquotes

end Constants

end WireSchema.Program
