import WireSchema.Proofs.Codec.Empty

/-!
# Loops over elements

The logging decoder lists the loops over elements that it enters, each with the
number of elements to come and the number of bytes left for them. It is the
decoder in all else, so what is true of its list is true of the loops of the
decoder, also where reading fails later on. A loop is entered only if there are
at least as many bytes left as elements to come. The room that a list of elements
takes in memory is not spoken of.
-/

namespace WireSchema

set_option autoImplicit false

open Schema Decoder

/-- So many elements are to be read, and so many bytes are left for them. -/
structure LoopEntry where
  count : Nat
  unread : Nat
deriving DecidableEq, Repr

/-- Reading that lists the loops it enters, the last one first. -/
abbrev Logging (α : Type) : Type := ExceptT CodecError (StateM (Reader × List LoopEntry)) α

namespace Logging

/-- A decoder that enters no loop. -/
def plain {α : Type} (d : Decoder α) : Logging α :=
  ExceptT.mk fun (r, log) => ((d.run r).1, (d.run r).2, log)

def enter (count : Nat) : Logging Unit :=
  modify fun (r, log) => (r, ⟨count, r.remaining⟩ :: log)

def times {α : Type} (reading : Logging α) : Nat → Logging (List α)
  | 0 => return []
  | count + 1 => do
    let item ← reading
    return item :: (← times reading count)

def readFields (read : Codec → Logging Value) : List FieldCodec → Logging (List (String × Value))
  | [] => return []
  | field :: rest => do
    let value ← read field.codec
    return (field.name, value) :: (← readFields read rest)

end Logging

def Layout.readLogging (read : Codec → Logging Value) (key : String) : Layout → Logging Value
  | .struct fields => return .struct (← Logging.readFields read fields)
  | .simpleEnum names => do
    let index ← Logging.plain (Reader.number 1)
    match names[index]? with
    | some name => return .enum name none
    | none => throw (.unknownIndex key index names.length)
  | .complexEnum variants => do
    let index ← Logging.plain (Reader.number 1)
    match variants[index]? with
    | some ⟨name, none⟩ => return .enum name none
    | some ⟨name, some fields⟩ => return .enum name (some (← Logging.readFields read fields))
    | none => throw (.unknownIndex key index variants.length)
  | .aliasOf codec => read codec

/-- Read a value when `levels` levels of nesting are left, and list the loops over elements. -/
def LayoutSet.readLogging (set : LayoutSet) : Nat → Codec → Logging Value
  | 0, _ => throw (.depthLimit maxDepth)
  | levels + 1, codec =>
    match codec with
    | .prim p => Logging.plain p.read
    | .option tag inner => do
      match ← Logging.plain (Reader.number tag.size) with
      | 0 => return .option tag none
      | 1 => return .option tag (some (← set.readLogging levels inner))
      | n => throw (.invalidOptionTag n)
    | .vec inner => do
      let count ← Logging.plain (Reader.count (set.minSize inner))
      if let some error := set.refuseZeroSized inner count then throw error
      Logging.enter count
      return .vec (← (set.readLogging levels inner).times count)
    | .array inner length => do
      if let some error := set.refuseZeroSized inner length then throw error
      Logging.plain (Reader.ensure length (set.minSize inner))
      Logging.enter length
      return .array (← (set.readLogging levels inner).times length)
    | .defined key =>
      match set.get? key with
      | some layout => layout.readLogging (set.readLogging levels) key
      | none => throw (.missingLayout key)

namespace Logging

variable {α β : Type} {P : LoopEntry → Prop} {w : Logging α} {d : Decoder α} {r : Reader}

/-- From a reader, `w` does what `d` does, and what it puts on the list is of `P`. -/
def Follows (P : LoopEntry → Prop) (w : Logging α) (d : Decoder α) (r : Reader) : Prop :=
  ∀ log, ∃ entered, w.run (r, log) = ((d.run r).1, (d.run r).2, entered ++ log) ∧ ∀ entry ∈ entered, P entry

theorem follows_plain (d : Decoder α) (r : Reader) : Follows P (plain d) d r :=
  fun _ => ⟨[], rfl, fun _ h => absurd h List.not_mem_nil⟩

theorem follows_pure (a : α) (r : Reader) : Follows P (pure a) (pure a) r :=
  follows_plain (pure a) r

theorem follows_throw (error : CodecError) (r : Reader) : Follows P (throw error : Logging α) (throw error) r :=
  follows_plain (throw error) r

theorem Follows.bind {f : α → Logging β} {g : α → Decoder β} (hw : Follows P w d r)
    (hf : ∀ a s, d.run r = (.ok a, s) → Follows P (f a) (g a) s) : Follows P (w >>= f) (d >>= g) r := by
  intro log
  obtain ⟨entered, hrun, hentered⟩ := hw log
  rcases hd : d.run r with ⟨error | a, s⟩
  · rw [hd] at hrun
    refine ⟨entered, ?_, hentered⟩
    rw [Step.run_bind_error hrun, Step.run_bind_error hd]
  · rw [hd] at hrun
    obtain ⟨more, hmore, hP⟩ := hf a s hd (entered ++ log)
    refine ⟨more ++ entered, ?_, List.forall_mem_append.mpr ⟨hP, hentered⟩⟩
    rw [Step.run_bind_ok hrun, Step.run_bind_ok hd, hmore, List.append_assoc]

theorem Follows.map (hw : Follows P w d r) (g : α → β) : Follows P (do return g (← w)) (do return g (← d)) r :=
  hw.bind fun a s _ => follows_pure (g a) s

theorem Follows.enter {count : Nat} (hP : P ⟨count, r.remaining⟩) (hw : Follows P w d r) :
    Follows P (do Logging.enter count; w) d r := by
  intro log
  obtain ⟨entered, hrun, hentered⟩ := hw (⟨count, r.remaining⟩ :: log)
  refine ⟨entered ++ [⟨count, r.remaining⟩], ?_, ?_⟩
  · rw [List.append_assoc]
    exact hrun
  · exact List.forall_mem_append.mpr ⟨hentered, List.forall_mem_singleton.mpr hP⟩

theorem Follows.times (hw : ∀ r, Follows P w d r) (count : Nat) (r : Reader) :
    Follows P (w.times count) (d.times count) r := by
  induction count generalizing r with
  | zero => exact follows_pure [] r
  | succ count ih => exact (hw r).bind fun item s _ => (ih s).map (item :: ·)

variable {read : Codec → Logging Value} {readPlain : Codec → Decoder Value}

theorem Follows.readFields (h : ∀ codec r, Follows P (read codec) (readPlain codec) r) (fields : List FieldCodec)
    (r : Reader) : Follows P (Logging.readFields read fields) (WireSchema.readFields readPlain fields) r := by
  induction fields generalizing r with
  | nil => exact follows_pure [] r
  | cons field rest ih => exact (h field.codec r).bind fun value s _ => (ih s).map ((field.name, value) :: ·)

theorem Follows.layout (h : ∀ codec r, Follows P (read codec) (readPlain codec) r) (key : String) (layout : Layout)
    (r : Reader) : Follows P (layout.readLogging read key) (layout.read readPlain key) r := by
  cases layout with
  | struct fields => exact (Follows.readFields h fields r).map Value.struct
  | simpleEnum names =>
    apply (follows_plain (Reader.number 1) r).bind
    intro index s _
    cases names[index]? with
    | none => exact follows_throw _ s
    | some name => exact follows_pure _ s
  | complexEnum variants =>
    apply (follows_plain (Reader.number 1) r).bind
    intro index s _
    rcases variants[index]? with _ | ⟨name, _ | fields⟩
    · exact follows_throw _ s
    · exact follows_pure _ s
    · exact (Follows.readFields h fields s).map fun values => Value.enum name (some values)
  | aliasOf codec => exact h codec r

end Logging

section Loops

variable {set : LayoutSet} {r s : Reader} {inner : Codec} {count least : Nat}

/-- There are at least as many bytes left as elements to be read. A count is a machine word. -/
def LoopEntry.Covered (entry : LoopEntry) : Prop :=
  0 < entry.count → entry.count < sizeLimit → entry.count ≤ entry.unread

theorem le_remaining_of_ensure (h : (Reader.ensure count least).run r = (.ok (), s)) :
    saturated (count * least) ≤ s.remaining := by
  rw [Reader.run_ensure] at h
  split at h
  · cases h
  · next hle =>
    cases h
    exact Nat.le_of_not_lt hle

theorem le_remaining_of_count (h : (Reader.count least).run r = (.ok count, s)) :
    saturated (count * least) ≤ s.remaining := by
  obtain ⟨n, t, -, h⟩ := Step.ok_of_run_bind h
  obtain ⟨_, u, hensure, h⟩ := Step.ok_of_run_bind h
  cases h
  exact le_remaining_of_ensure hensure

theorem covered_of_not_refused (hrefuse : set.refuseZeroSized inner count = none)
    (hle : saturated (count * set.minSize inner) ≤ r.remaining) : LoopEntry.Covered ⟨count, r.remaining⟩ := by
  intro hpos hlt
  have hleast : 0 < set.minSize inner := by
    apply Nat.pos_of_ne_zero
    intro hzero
    have hcount := LayoutSet.eq_zero_of_not_refused hrefuse hzero
    exact absurd hcount (Nat.ne_of_gt hpos)
  have hproduct : count ≤ count * set.minSize inner := Nat.le_mul_of_pos_right count hleast
  have hword : count ≤ saturated (count * set.minSize inner) :=
    Nat.le_min.mpr ⟨hproduct, Nat.le_sub_one_of_lt hlt⟩
  exact Nat.le_trans hword hle

/-- The induction is on the levels. Both loops are entered behind the check for items of no size and the
comparison to the rest of the data. -/
theorem LayoutSet.follows_readLogging (set : LayoutSet) (levels : Nat) (codec : Codec) (r : Reader) :
    Logging.Follows LoopEntry.Covered (set.readLogging levels codec) (set.readAt levels codec) r := by
  induction levels generalizing codec r with
  | zero => exact Logging.follows_throw _ r
  | succ levels ih =>
    cases codec with
    | prim p => exact Logging.follows_plain p.read r
    | option tag inner =>
      apply (Logging.follows_plain (Reader.number tag.size) r).bind
      intro n s _
      match n with
      | 0 => exact Logging.follows_pure _ s
      | 1 => exact (ih inner s).map fun value => Value.option tag (some value)
      | n + 2 => exact Logging.follows_throw _ s
    | vec inner =>
      apply (Logging.follows_plain (Reader.count (set.minSize inner)) r).bind
      intro count s hcount
      have hitems := (Logging.Follows.times (ih inner) count s).map Value.vec
      cases hrefuse : set.refuseZeroSized inner count with
      | some error =>
        apply (Logging.follows_throw error s).bind
        intro _ t hrun
        cases hrun
      | none => exact hitems.enter (covered_of_not_refused hrefuse (le_remaining_of_count hcount))
    | array inner length =>
      rw [readLogging, readAt]
      cases hrefuse : set.refuseZeroSized inner length with
      | some error =>
        apply (Logging.follows_throw error r).bind
        intro _ t hrun
        cases hrun
      | none =>
        apply (Logging.follows_plain (Reader.ensure length (set.minSize inner)) r).bind
        intro _ s hensure
        have hitems := (Logging.Follows.times (ih inner) length s).map Value.array
        exact hitems.enter (covered_of_not_refused hrefuse (le_remaining_of_ensure hensure))
    | defined key =>
      rw [readLogging, readAt]
      cases set.get? key with
      | none => exact Logging.follows_throw _ r
      | some layout => exact Logging.Follows.layout ih key layout r

end Loops

end WireSchema
