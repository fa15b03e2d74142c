import WireSchema.Proofs.Codec.Stepwise

/-!
# Values that say where they end

`d.Takes bytes a`: on these bytes, whatever follows them, `d` gives `a` and stops
behind them, and on fewer of them it runs out of data. A decoder delimits what it
reads if it takes all that it reads in this sense. The stepwise decoder does, by
its building blocks; a check of the rest of the data alone does not, so the
decoder proper is compared to the stepwise one.
-/

namespace WireSchema

set_option autoImplicit false

open Schema Decoder

namespace Decoder

variable {α β : Type} {d e : Decoder α} {f : α → Decoder β} {x y bytes : List UInt8} {a : α} {b : β}

structure Takes (d : Decoder α) (bytes : List UInt8) (a : α) : Prop where
  whole : ∀ i rest, d.run ⟨i, bytes ++ rest⟩ = (.ok a, ⟨i + bytes.length, rest⟩)
  cut : ∀ i k, k < bytes.length → d.RunsOut ⟨i, bytes.take k⟩

def Delimits (d : Decoder α) : Prop := d.Yields d.Takes

theorem takes_pure (a : α) : Takes (pure a) [] a :=
  ⟨fun _ _ => rfl, fun _ _ h => nomatch h⟩

theorem Takes.bind (hd : d.Takes x a) (hf : (f a).Takes y b) : (d >>= f).Takes (x ++ y) b := by
  constructor
  · intro i rest
    rw [List.append_assoc, Step.run_bind_ok (hd.whole i _), hf.whole, List.length_append, Nat.add_assoc]
  · intro i k hk
    rw [List.take_append]
    by_cases hx : k < x.length
    · have hout := hd.cut i k hx
      rw [show k - x.length = 0 by omega, List.take_zero, List.append_nil]
      exact hout.bind
    · rw [List.take_of_length_le (Nat.le_of_not_lt hx)]
      refine .after (hd.whole i _) (hf.cut _ _ ?_)
      rw [List.length_append] at hk
      omega

theorem delimits_pure (a : α) : Delimits (pure a) := yields_pure (takes_pure a)

theorem delimits_throw (error : CodecError) : Delimits (throw error : Decoder α) := yields_throw error

theorem Delimits.bind (hd : d.Delimits) (hf : ∀ a, (f a).Delimits) : (d >>= f).Delimits :=
  yields_bind (hd.mono fun _ a hx => (hf a).mono fun _ _ hy => hx.bind hy)

theorem Delimits.map (hd : d.Delimits) (g : α → β) : Delimits (do return g (← d)) :=
  hd.bind fun a => delimits_pure (g a)

theorem Delimits.times (hd : d.Delimits) (count : Nat) : (d.times count).Delimits := by
  induction count with
  | zero => exact delimits_pure []
  | succ count ih => exact hd.bind fun item => ih.map (item :: ·)

/-- To look ahead and give up for want of bytes makes no difference to where a value ends. -/
theorem LooksAhead.delimits (h : d.LooksAhead e) (he : e.Delimits) : d.Delimits := by
  intro r a s hd
  obtain ⟨bytes, hrest, hindex, htakes⟩ := he r a s (h.ok_iff.mp hd)
  refine ⟨bytes, hrest, hindex, fun i rest => h.succeeds _ _ _ (htakes.whole i rest), fun i k hk => ?_⟩
  rcases h.follows ⟨i, bytes.take k⟩ with heq | hout
  · obtain ⟨needed, left, t, hrun⟩ := htakes.cut i k hk
    exact ⟨needed, left, t, heq.trans hrun⟩
  · exact hout

end Decoder

namespace Reader

theorem delimits_bytes (count : Nat) : Delimits (bytes count) := by
  refine (yields_bytes count).mono ?_
  rintro front data ⟨hlength, rfl⟩
  constructor
  · intro i rest
    rw [run_bytes_append hlength, hlength]
  · intro i k hk
    refine ⟨count, (data.take k).length, ⟨i, data.take k⟩, ?_⟩
    rw [run_bytes, if_neg (by rw [List.length_take]; omega)]
    rfl

theorem delimits_number (size : Nat) : Delimits (number size) :=
  (delimits_bytes size).map Bytes.leNat

theorem delimits_bool : Delimits bool := by
  refine (delimits_number 1).bind fun n => ?_
  match n with
  | 0 => exact delimits_pure false
  | 1 => exact delimits_pure true
  | n + 2 => exact delimits_throw _

theorem delimits_stringStepwise : Delimits stringStepwise := by
  refine (delimits_number 4).bind fun n => (delimits_bytes n).bind fun data => ?_
  cases Text.ofUtf8? data with
  | none => exact delimits_throw _
  | some text => exact delimits_pure text

theorem delimits_discriminator (expected : Discriminator) : Delimits (discriminator expected) := by
  refine (delimits_bytes 8).bind fun data => ?_
  cases Discriminator.ofBytes? data with
  | none => exact delimits_throw _
  | some actual =>
    dsimp only
    split
    · exact delimits_pure ()
    · exact delimits_throw _

end Reader

theorem Schema.Primitive.delimits_readStepwise (p : Primitive) : p.readStepwise.Delimits := by
  cases p with
  | bool => exact Reader.delimits_bool.map Value.bool
  | scalar s => exact (Reader.delimits_bytes s.size).map (Value.ofBytes s)
  | bytes => exact (Reader.delimits_number 4).bind fun n => (Reader.delimits_bytes n).map Value.bytes
  | string => exact Reader.delimits_stringStepwise.map Value.string

section Parts

variable {read : Codec → Decoder Value}

theorem delimits_readFields (h : ∀ codec, (read codec).Delimits) (fields : List FieldCodec) :
    (readFields read fields).Delimits := by
  induction fields with
  | nil => exact delimits_pure []
  | cons field rest ih => exact (h field.codec).bind fun value => ih.map ((field.name, value) :: ·)

theorem Layout.delimits_read (h : ∀ codec, (read codec).Delimits) (key : String) (layout : Layout) :
    (layout.read read key).Delimits := by
  cases layout with
  | struct fields => exact (delimits_readFields h fields).map Value.struct
  | simpleEnum names =>
    refine (Reader.delimits_number 1).bind fun index => ?_
    cases names[index]? with
    | none => exact delimits_throw _
    | some name => exact delimits_pure _
  | complexEnum variants =>
    refine (Reader.delimits_number 1).bind fun index => ?_
    rcases variants[index]? with _ | ⟨name, _ | fields⟩
    · exact delimits_throw _
    · exact delimits_pure _
    · exact (delimits_readFields h fields).map fun values => Value.enum name (some values)
  | aliasOf codec => exact h codec

end Parts

namespace LayoutSet

variable (set : LayoutSet)

theorem delimits_readStepwise (levels : Nat) (codec : Codec) : (set.readStepwise levels codec).Delimits := by
  induction levels generalizing codec with
  | zero => exact delimits_throw _
  | succ levels ih =>
    cases codec with
    | prim p => exact p.delimits_readStepwise
    | option tag inner =>
      refine (Reader.delimits_number tag.size).bind fun n => ?_
      match n with
      | 0 => exact delimits_pure _
      | 1 => exact (ih inner).map fun value => Value.option tag (some value)
      | n + 2 => exact delimits_throw _
    | vec inner =>
      refine (Reader.delimits_number 4).bind fun count => ?_
      have hitems := ((ih inner).times count).map Value.vec
      cases set.refuseZeroSized inner count with
      | some error => exact (delimits_throw error).bind fun _ => hitems
      | none => exact hitems
    | array inner length =>
      have hitems := ((ih inner).times length).map Value.array
      rw [readStepwise]
      cases set.refuseZeroSized inner length with
      | some error => exact (delimits_throw error).bind fun _ => hitems
      | none => exact hitems
    | defined key =>
      rw [readStepwise]
      cases set.get? key with
      | none => exact delimits_throw _
      | some layout => exact layout.delimits_read ih key

theorem delimits_readAt (levels : Nat) (codec : Codec) : (set.readAt levels codec).Delimits :=
  (set.looksAhead_readAt levels codec).delimits (set.delimits_readStepwise levels codec)

end LayoutSet

end WireSchema
