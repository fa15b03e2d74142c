import WireSchema.Proofs.Step
import WireSchema.Schema.Discriminator
import WireSchema.Schema.Source

/-!
# Documents in the data of an account

Of the data only the compressed part counts, as far as the header says that it
goes. What that part comes to is a function of it alone, so the discriminator,
the authority and whatever stands behind it have no say. This holds whatever the
two ways to decompress are, and nothing is assumed of them.
-/

namespace WireSchema.Schema

set_option autoImplicit false

/-- What stands before a compressed part of some length. -/
def accountHeader (discriminator : Discriminator) (authority : Vector UInt8 32) (length : Nat) :
    List UInt8 :=
  discriminator.toList ++ authority.toList ++ Bytes.leBytes 4 length

/-- The document of a compressed part. The envelope is tried first, and a raw stream if there is none. -/
def Document.ofPayload (ways : Decompressors) (payload : List UInt8) : Except SourceError Document :=
  match (ways.envelope payload).or (ways.raw payload) with
  | none => .error (.compressed "Failed to decompress IDL data")
  | some bytes =>
    match Text.ofUtf8? bytes with
    | none => .error (.compressed "Invalid UTF-8")
    | some text => Document.ofText text

section Header

variable (discriminator : Discriminator) (authority : Vector UInt8 32) (length : Nat) (rest : List UInt8)

@[simp] theorem length_accountHeader : (accountHeader discriminator authority length).length = headerSize := by
  simp [accountHeader, headerSize, lengthOffset]

theorem lengthBytes_accountHeader :
    ((accountHeader discriminator authority length ++ rest).drop lengthOffset).take 4 = Bytes.leBytes 4 length := by
  have hfront : (discriminator.toList ++ authority.toList).length = lengthOffset := by simp [lengthOffset]
  rw [accountHeader, List.append_assoc, List.drop_left' hfront, List.take_left' (Bytes.length_leBytes 4 length)]

/-- Any data that is long enough begins with a header. -/
theorem exists_accountHeader {data : List UInt8} (h : headerSize ≤ data.length) :
    ∃ discriminator authority length rest, length < Nat.pow 2 32
      ∧ data = accountHeader discriminator authority length ++ rest := by
  have hsize : headerSize = 44 := rfl
  have hdiscriminator : (data.take 8).toArray.size = 8 := by simp; omega
  have hauthority : ((data.drop 8).take 32).toArray.size = 32 := by simp; omega
  have hlength : ((data.drop 40).take 4).length = 4 := by simp; omega
  have hlt := Bytes.leNat_lt ((data.drop 40).take 4)
  have hspelled := Bytes.leBytes_leNat ((data.drop 40).take 4)
  rw [hlength] at hlt hspelled
  refine ⟨⟨_, hdiscriminator⟩, ⟨_, hauthority⟩, Bytes.leNat ((data.drop 40).take 4), data.drop 44, hlt, ?_⟩
  have hnext : ∀ start size, (data.drop start).take size ++ data.drop (start + size) = data.drop start := by
    intro start size
    rw [← List.drop_drop, List.take_append_drop]
  have hparts : data.take 8 ++ (data.drop 8).take 32 ++ (data.drop 40).take 4 ++ data.drop 44 = data := by
    rw [List.append_assoc, hnext 40 4, List.append_assoc, hnext 8 32, List.take_append_drop]
  rw [accountHeader, hspelled]
  exact hparts.symm

end Header

section Account

variable (ways : Decompressors)

theorem decompress_eq (data : List UInt8) :
    decompress ways data
      = match (ways.envelope data).or (ways.raw data) with
        | none => .error (.compressed "Failed to decompress IDL data")
        | some bytes => .ok bytes := by
  unfold decompress
  cases ways.envelope data with
  | some bytes => rfl
  | none => cases ways.raw data <;> rfl

/-- A header and what is behind it: the length decides, and nothing else of the header. -/
theorem Document.ofAccount_accountHeader (discriminator : Discriminator) (authority : Vector UInt8 32)
    {length : Nat} (hlength : length < Nat.pow 2 32) (rest : List UInt8) :
    Document.ofAccount ways (accountHeader discriminator authority length ++ rest)
      = if length = 0 then .error (.compressed "IDL compressed data is empty")
        else if rest.length < length then
          .error (.compressed s!"Compressed data truncated: expected {length} bytes, got {rest.length}")
        else Document.ofPayload ways (rest.take length) := by
  have hheader := length_accountHeader discriminator authority length
  have hlong : ¬ (accountHeader discriminator authority length ++ rest).length < headerSize := by
    rw [List.length_append]
    omega
  have hdeclared : Bytes.leNat (Bytes.leBytes 4 length) = length := by simpa using Nat.mod_eq_of_lt hlength
  unfold Document.ofAccount
  rw [if_neg hlong, lengthBytes_accountHeader, hdeclared, List.drop_left' hheader]
  by_cases hzero : length = 0
  · rw [if_pos hzero, if_pos hzero]
    rfl
  rw [if_neg hzero, if_neg hzero]
  by_cases hshort : rest.length < length
  · rw [if_pos hshort, if_pos hshort]
    rfl
  rw [if_neg hshort, if_neg hshort, Document.ofPayload, decompress_eq]
  cases (ways.envelope (rest.take length)).or (ways.raw (rest.take length)) with
  | none => rfl
  | some bytes =>
    simp only [bind, Except.bind]
    cases Text.ofUtf8? bytes <;> rfl

/-- What an account comes to depends on the compressed part alone, whatever it is decompressed with. Data
without one, or with less of it than the header says, is refused; and every data that is long enough has a
header. -/
theorem Document.ofAccount_by_payload :
    (∀ (discriminator : Discriminator) (authority : Vector UInt8 32) (payload trailing : List UInt8),
        0 < payload.length → payload.length < Nat.pow 2 32 →
          Document.ofAccount ways (accountHeader discriminator authority payload.length ++ payload ++ trailing)
            = Document.ofPayload ways payload)
      ∧ (∀ data : List UInt8, data.length < 44 →
          ∃ reason, Document.ofAccount ways data = .error (.compressed reason))
      ∧ (∀ (discriminator : Discriminator) (authority : Vector UInt8 32) (length : Nat) (rest : List UInt8),
          length < Nat.pow 2 32 → length = 0 ∨ rest.length < length →
            ∃ reason, Document.ofAccount ways (accountHeader discriminator authority length ++ rest)
              = .error (.compressed reason))
      ∧ ∀ data : List UInt8, 44 ≤ data.length →
          ∃ discriminator authority length rest, length < Nat.pow 2 32
            ∧ data = accountHeader discriminator authority length ++ rest := by
  refine ⟨?_, ?_, ?_, fun data h => exists_accountHeader h⟩
  · intro discriminator authority payload trailing hpos hlt
    have hnonzero : payload.length ≠ 0 := by omega
    have hlong : ¬ (payload ++ trailing).length < payload.length := by
      rw [List.length_append]
      omega
    rw [List.append_assoc, ofAccount_accountHeader ways discriminator authority hlt, if_neg hnonzero,
      if_neg hlong, List.take_left]
  · intro data hshort
    refine ⟨"Account data too small for IDL header", ?_⟩
    unfold ofAccount
    rw [if_pos (show data.length < headerSize from hshort)]
    rfl
  · intro discriminator authority length rest hlt hrefused
    rw [ofAccount_accountHeader ways discriminator authority hlt]
    by_cases hzero : length = 0
    · exact ⟨_, if_pos hzero⟩
    · have hshort : rest.length < length := hrefused.resolve_left hzero
      rw [if_neg hzero, if_pos hshort]
      exact ⟨_, rfl⟩

end Account

/-- A document in its envelope, behind any header and before any other bytes. -/
theorem Document.ofAccount_by_payload_envelope :
    let payload : List UInt8 :=
      [120, 218, 29, 140, 177, 13, 192, 48, 8, 4, 119, 249, 218, 69, 106, 175, 18, 165, 64, 134, 194, 133, 73,
       4, 56, 141, 229, 221, 131, 210, 253, 221, 73, 191, 64, 204, 38, 238, 168, 32, 20, 12, 9, 98, 10, 66, 93,
       80, 26, 146, 122, 164, 126, 197, 188, 223, 154, 116, 36, 249, 35, 237, 159, 187, 160, 171, 135, 205, 22,
       89, 243, 227, 188, 246, 7, 50, 193, 26, 57]
    0 < payload.length ∧ payload.length < Nat.pow 2 32
      ∧ (∃ doc, Document.ofPayload .inflating payload = .ok doc)
      ∧ ∀ discriminator authority trailing,
        Document.ofAccountData (accountHeader discriminator authority payload.length ++ payload ++ trailing)
          = Document.ofPayload .inflating payload := by
  intro payload
  have hpos : 0 < payload.length := by decide
  have hlt : payload.length < Nat.pow 2 32 := by decide
  refine ⟨hpos, hlt, Step.exists_of_isOk (by decide +kernel), fun discriminator authority trailing => ?_⟩
  exact (Document.ofAccount_by_payload .inflating).1 discriminator authority payload trailing hpos hlt

end WireSchema.Schema
