import WireSchema.Proofs.Program.RoundTrip

/-!
# What is written too deep to be read

The encoder has no limit on how deep a value nests, and the decoder has one. So
what was encoded under a name is read under it up to that limit, and beyond it
the limit is the error. Nothing here keeps a caller from writing such data.
-/

namespace WireSchema

set_option autoImplicit false

open Schema Encoder

/-- Optional links to the next one, `n` of them there. -/
def Value.chain : Nat → Value
  | 0 => .option .byte none
  | n + 1 => .option .byte (some (chain n))

def chainLayouts : LayoutSet :=
  ⟨[("Chain", .aliasOf (.option .byte (.defined "Chain")))]⟩

namespace Value

theorem writes_chain (n : Nat) :
    Writes ((chain n).write chainLayouts (.defined "Chain")) (List.replicate n 1 ++ [0]) := by
  induction n with
  | zero => exact writes_emit [0]
  | succ n ih =>
    have hlink : Writes ((chain (n + 1)).write chainLayouts (.defined "Chain"))
        ([1] ++ (List.replicate n 1 ++ [0])) := Writes.bind (writes_emit [1]) ih
    exact hlink

theorem normal_chain (n : Nat) : (chain n).normal chainLayouts (.defined "Chain") = chain n := by
  induction n with
  | zero => rfl
  | succ n ih =>
    show Value.option .byte (some ((chain n).normal chainLayouts (.defined "Chain"))) = _
    rw [ih, chain]

/-- A link has the alias to follow and, one level below that, what it leads to. -/
theorem depth_chain (n : Nat) : (chain n).depth chainLayouts (.defined "Chain") = 2 * n + 1 := by
  induction n with
  | zero => rfl
  | succ n ih =>
    have hstep : (chain (n + 1)).depth chainLayouts (.defined "Chain")
        = 1 + ((chain n).depth chainLayouts (.defined "Chain") + 1) := rfl
    rw [hstep, ih]
    omega

end Value

namespace Program

variable {p : Program} {kind : EntityKind} {name : String} {v : Value} {bytes : List UInt8}

/-- What was encoded under a name is decoded exactly if it has no more levels than the decoder goes down. -/
theorem decodes_encoded_iff {doc : Document} (hp : ofDocument doc = .ok p)
    (h : p.Encodes kind name v bytes) : ∃ e, p.entry kind name = .ok e
      ∧ ((∃ w, p.decodeAs kind name bytes = .ok w) ↔ e.levels p.layouts (e.normal p.layouts v) ≤ maxDepth + 1)
      ∧ (maxDepth + 1 < e.levels p.layouts (e.normal p.layouts v) →
        p.decodeAs kind name bytes = .error (.depthLimit maxDepth)) := by
  obtain ⟨e, hentry, hdecode⟩ := decodeAs_of_encodes hp h
  refine ⟨e, hentry, ?_⟩
  by_cases hlevels : e.levels p.layouts (e.normal p.layouts v) ≤ maxDepth + 1
  · rw [if_pos hlevels] at hdecode
    have hread : ∃ w, p.decodeAs kind name bytes = .ok w := ⟨_, hdecode⟩
    exact ⟨iff_of_true hread hlevels, fun hlt => by omega⟩
  · rw [if_neg hlevels] at hdecode
    have hrefused : ¬ ∃ w, p.decodeAs kind name bytes = .ok w := by
      intro ⟨w, hw⟩
      rw [hdecode] at hw
      cases hw
    exact ⟨iff_of_false hrefused hlevels, fun _ => hdecode⟩

/-- Accounts that are chains. -/
def chainDocument : Document :=
  { Document.ofTypes [⟨"Chain", [], .borsh, none, [], .aliasOf (.option .byte (some (.defined "Chain" [])))⟩] with
    accounts := [⟨"Chain", [1, 0, 0, 0, 0, 0, 0, 0]⟩] }

def chains : Program :=
  ⟨chainDocument, chainLayouts, [⟨"Chain", #v[1, 0, 0, 0, 0, 0, 0, 0], .defined "Chain"⟩], [], []⟩

theorem ofDocument_chains : ofDocument chainDocument = .ok chains := rfl

theorem encodeAccount_chain (n : Nat) : chains.encodeAccount "Chain" (.chain n)
    = .ok ([1, 0, 0, 0, 0, 0, 0, 0] ++ (List.replicate n 1 ++ [0])) :=
  Writes.bytes_eq (Writes.bind (writes_emit [1, 0, 0, 0, 0, 0, 0, 0]) (Value.writes_chain n))

/-- With 63 links the decoder gets to the end, as the last level is 127. -/
theorem decodes_encoded_iff_chain :
    let bytes : List UInt8 := [1, 0, 0, 0, 0, 0, 0, 0] ++ (List.replicate 63 1 ++ [0])
    chains.Encodes .account "Chain" (.chain 63) bytes
      ∧ ∃ w, chains.decodeAs .account "Chain" bytes = .ok w := by
  intro bytes
  have hv : chains.Encodes .account "Chain" (.chain 63) bytes := .account (encodeAccount_chain 63)
  obtain ⟨e, hentry, hread, -⟩ := decodes_encoded_iff ofDocument_chains hv
  obtain rfl : .account ⟨"Chain", #v[1, 0, 0, 0, 0, 0, 0, 0], .defined "Chain"⟩ = e := Except.ok.inj hentry
  refine ⟨hv, hread.mpr ?_⟩
  show ((Value.chain 63).normal chainLayouts (.defined "Chain")).depth chainLayouts (.defined "Chain") + 1 ≤ _
  rw [Value.normal_chain, Value.depth_chain]
  decide

/-- One link more is written as well, and not read. -/
theorem encoded_not_decoded :
    let bytes : List UInt8 := [1, 0, 0, 0, 0, 0, 0, 0] ++ (List.replicate 64 1 ++ [0])
    ofDocument chainDocument = .ok chains ∧ chains.encodeAccount "Chain" (.chain 64) = .ok bytes
      ∧ chains.decodeAccount "Chain" bytes = .error (.depthLimit 128) := by
  intro bytes
  have hv : chains.Encodes .account "Chain" (.chain 64) bytes := .account (encodeAccount_chain 64)
  obtain ⟨e, hentry, hdecode⟩ := decodeAs_of_encodes ofDocument_chains hv
  obtain rfl : .account ⟨"Chain", #v[1, 0, 0, 0, 0, 0, 0, 0], .defined "Chain"⟩ = e := Except.ok.inj hentry
  refine ⟨ofDocument_chains, encodeAccount_chain 64, hdecode.trans (if_neg ?_)⟩
  show ¬ ((Value.chain 64).normal chainLayouts (.defined "Chain")).depth chainLayouts (.defined "Chain") + 1 ≤ _
  rw [Value.normal_chain, Value.depth_chain]
  decide

end Program

end WireSchema
