import Mathlib.Algebra.GroupWithZero.Nat
import WireSchema.Proofs.Codec.Cycles
import WireSchema.Proofs.EarlyChecks

/-!
# Exact sizes

`set.Occupies codec n` says that the sizes of the parts of a codec add up to `n`,
in numbers without bound. If an exact size is given for a codec, it is this sum,
and all values of the codec are written to and read from as many bytes. That a
codec whose values all take the same number of bytes is given a size is not
claimed: the sum may need more than 64 bits, and so may a part of it.
-/

namespace WireSchema

set_option autoImplicit false

open Schema Decoder

/-- What a layout makes of the sizes of its codecs. All variants of an enumeration must agree. -/
def Layout.Sums (size : Codec → Nat) : Layout → Nat → Prop
  | .struct fields, n => n = (fields.map fun f => size f.codec).sum
  | .simpleEnum _, n => n = 1
  | .complexEnum variants, n =>
    variants ≠ [] ∧ ∀ v ∈ variants, n = ((v.fields.getD []).map fun f => size f.codec).sum + 1
  | .aliasOf codec, n => n = size codec

/-- The sizes of the parts of a codec add up to a number. -/
inductive LayoutSet.Occupies (set : LayoutSet) : Codec → Nat → Prop
  | bool : Occupies set (.prim .bool) 1
  | scalar (s : Scalar) : Occupies set (.prim (.scalar s)) s.size
  | array {inner : Codec} {length n : Nat} : Occupies set inner n → Occupies set (.array inner length) (n * length)
  | defined {key : String} {layout : Layout} {size : Codec → Nat} {n : Nat} : set.get? key = some layout →
      (∀ codec, layout.Holds codec → Occupies set codec (size codec)) → layout.Sums size n →
      Occupies set (.defined key) n

theorem sum_sizes_congr {fields : List FieldCodec} {size size' : Codec → Nat}
    (h : ∀ f ∈ fields, size f.codec = size' f.codec) :
    (fields.map fun f => size f.codec).sum = (fields.map fun f => size' f.codec).sum :=
  congrArg List.sum (List.map_congr_left h)

theorem Layout.Sums.unique {size size' : Codec → Nat} {layout : Layout} {n m : Nat}
    (h : ∀ codec, layout.Holds codec → size codec = size' codec) (hn : layout.Sums size n)
    (hm : layout.Sums size' m) : n = m := by
  cases layout with
  | struct fields =>
    rw [hn, hm]
    exact sum_sizes_congr fun f hf => h f.codec (.field hf)
  | simpleEnum names => rw [hn, hm]
  | complexEnum variants =>
    obtain ⟨hne, hn⟩ := hn
    obtain ⟨-, hm⟩ := hm
    obtain ⟨v, hv⟩ := List.exists_mem_of_ne_nil variants hne
    rw [hn v hv, hm v hv, sum_sizes_congr fun f hf => h f.codec (.payload hv hf)]
  | aliasOf codec => rw [hn, hm, h codec .aliased]

theorem LayoutSet.Occupies.unique {set : LayoutSet} {codec : Codec} {n m : Nat} (hn : set.Occupies codec n)
    (hm : set.Occupies codec m) : n = m := by
  induction hn generalizing m with
  | bool =>
    cases hm
    rfl
  | scalar s =>
    cases hm
    rfl
  | array _ ih =>
    cases hm with
    | array hinner => rw [ih hinner]
  | defined hkey _ hsum ih =>
    cases hm with
    | defined hkey' hparts hsum' =>
      cases hkey.symm.trans hkey'
      exact hsum.unique (fun codec hcodec => ih codec hcodec (hparts codec hcodec)) hsum'

section Given

variable {set : LayoutSet} {ofKey : String → Option Nat} {n : Nat}

theorem checked_eq_some {total : Nat} (h : checked total = some n) : total = n ∧ n < sizeLimit := by
  unfold checked at h
  split at h
  · next hlt =>
    cases h
    exact ⟨rfl, hlt⟩
  · cases h

/-- The size given for a codec, or nothing. -/
def Codec.sizeBy (ofKey : String → Option Nat) (codec : Codec) : Nat :=
  (codec.fixedSize? ofKey).getD 0

/-- The induction is on the fields, with any sum so far. -/
theorem foldlM_fixedSize? {fields : List FieldCodec} {before : Nat} (hbefore : before < sizeLimit)
    (h : fields.foldlM (fun total f => do checked (total + (← f.codec.fixedSize? ofKey))) before = some n) :
    (∀ f ∈ fields, f.codec.fixedSize? ofKey = some (f.codec.sizeBy ofKey))
      ∧ n = before + (fields.map fun f => f.codec.sizeBy ofKey).sum ∧ n < sizeLimit := by
  induction fields generalizing before with
  | nil =>
    cases h
    exact ⟨fun f hf => absurd hf List.not_mem_nil, rfl, hbefore⟩
  | cons field rest ih =>
    rw [List.foldlM_cons] at h
    obtain ⟨total, htotal, hrest⟩ := Option.bind_eq_some_iff.mp h
    obtain ⟨size, hsize, hchecked⟩ := Option.bind_eq_some_iff.mp htotal
    obtain ⟨rfl, hlt⟩ := checked_eq_some hchecked
    obtain ⟨hsizes, hsum, hn⟩ := ih hlt hrest
    have hfield : field.codec.sizeBy ofKey = size := by rw [Codec.sizeBy, hsize, Option.getD_some]
    refine ⟨List.forall_mem_cons.mpr ⟨?_, hsizes⟩, ?_, hn⟩
    · rw [hfield, hsize]
    · rw [hsum, List.map_cons, List.sum_cons, hfield, Nat.add_assoc]

theorem fieldsFixedSize?_eq {fields : List FieldCodec} (h : fieldsFixedSize? ofKey fields = some n) :
    (∀ f ∈ fields, f.codec.fixedSize? ofKey = some (f.codec.sizeBy ofKey))
      ∧ n = (fields.map fun f => f.codec.sizeBy ofKey).sum ∧ n < sizeLimit := by
  have hsizes := foldlM_fixedSize? (by decide) h
  rwa [Nat.zero_add] at hsizes

/-- A layout has a size only if its codecs have, and it is the sum of theirs. -/
theorem Layout.fixedSize?_eq {layout : Layout} (h : layout.fixedSize? ofKey = some n) :
    (∀ codec, layout.Holds codec → codec.fixedSize? ofKey = some (codec.sizeBy ofKey))
      ∧ layout.Sums (Codec.sizeBy ofKey) n
      ∧ ((∀ codec, layout.Holds codec → codec.sizeBy ofKey < sizeLimit) → n < sizeLimit) := by
  cases layout with
  | struct fields =>
    obtain ⟨hsizes, hsum, hlt⟩ := fieldsFixedSize?_eq h
    refine ⟨?_, hsum, fun _ => hlt⟩
    intro codec hcodec
    cases hcodec with
    | field hf => exact hsizes _ hf
  | simpleEnum names =>
    cases h
    refine ⟨?_, rfl, fun _ => by decide⟩
    intro codec hcodec
    cases hcodec
  | complexEnum variants =>
    cases variants with
    | nil => cases h
    | cons first rest =>
      obtain ⟨size, hfirst, h⟩ := Option.bind_eq_some_iff.mp h
      split at h
      · next hrest =>
        obtain ⟨rfl, hlt⟩ := checked_eq_some h
        have hall : ∀ v ∈ first :: rest, v.fixedSize? ofKey = some size := by
          refine List.forall_mem_cons.mpr ⟨hfirst, fun v hv => ?_⟩
          exact of_decide_eq_true (List.all_eq_true.mp hrest v hv)
        refine ⟨?_, ⟨List.cons_ne_nil _ _, ?_⟩, fun _ => hlt⟩
        · intro codec hcodec
          cases hcodec with
          | @payload _ v f hv hf =>
            obtain ⟨hsizes, -⟩ := fieldsFixedSize?_eq (hall v hv)
            exact hsizes f hf
        · intro v hv
          obtain ⟨-, hsum, -⟩ := fieldsFixedSize?_eq (hall v hv)
          rw [hsum]
      · cases h
  | aliasOf inner =>
    have hsize : inner.sizeBy ofKey = n := by rw [Codec.sizeBy, show inner.fixedSize? ofKey = some n from h, Option.getD_some]
    refine ⟨?_, hsize.symm, fun hparts => ?_⟩
    · intro codec hcodec
      cases hcodec with
      | aliased => rw [hsize, show inner.fixedSize? ofKey = some n from h]
    · rw [← hsize]
      exact hparts inner .aliased

/-- A size is the sum of the sizes of the parts, and fits 64 bits. -/
def LayoutSet.Measures (set : LayoutSet) (codec : Codec) (n : Nat) : Prop :=
  set.Occupies codec n ∧ n < sizeLimit

theorem Codec.measures_of_fixedSize? (hkey : ∀ key n, ofKey key = some n → set.Measures (.defined key) n)
    {codec : Codec} (h : codec.fixedSize? ofKey = some n) : set.Measures codec n := by
  induction codec generalizing n with
  | prim p =>
    cases p with
    | bool =>
      cases h
      exact ⟨.bool, by decide⟩
    | scalar s =>
      cases h
      exact ⟨.scalar s, by cases s <;> decide⟩
    | bytes => cases h
    | string => cases h
  | option tag inner => cases h
  | vec inner => cases h
  | array inner length ih =>
    obtain ⟨size, hsize, h⟩ := Option.bind_eq_some_iff.mp h
    obtain ⟨rfl, hlt⟩ := checked_eq_some h
    exact ⟨.array (ih hsize).1, hlt⟩
  | defined key => exact hkey key n h

theorem LayoutSet.measures_of_keyFixedSize? (fuel : Nat) (key : String) (n : Nat)
    (h : set.keyFixedSize? fuel key = some n) : set.Measures (.defined key) n := by
  induction fuel generalizing key n with
  | zero => cases h
  | succ fuel ih =>
    obtain ⟨layout, hlayout, h⟩ := Option.bind_eq_some_iff.mp h
    obtain ⟨hsizes, hsum, hlt⟩ := Layout.fixedSize?_eq h
    have hparts := fun codec hcodec => Codec.measures_of_fixedSize? ih (hsizes codec hcodec)
    exact ⟨.defined hlayout (fun codec hcodec => (hparts codec hcodec).1) hsum,
      hlt fun codec hcodec => (hparts codec hcodec).2⟩

theorem LayoutSet.measures_of_fixedSize? {codec : Codec} (h : set.fixedSize? codec = some n) : set.Measures codec n :=
  Codec.measures_of_fixedSize? (measures_of_keyFixedSize? _) h

end Given

section Read

variable {set : LayoutSet} {n : Nat}

theorem yields_length_times {α : Type} {d : Decoder α} (hd : d.Yields fun bytes _ => bytes.length = n) (count : Nat) :
    (d.times count).Yields fun bytes _ => bytes.length = n * count := by
  induction count with
  | zero => exact yields_pure rfl
  | succ count ih =>
    refine yields_bind (hd.mono ?_)
    intro x item hx
    refine yields_bind (ih.mono ?_)
    intro y items hy
    refine yields_pure ?_
    rw [List.append_nil, List.length_append, hx, hy, Nat.mul_succ, Nat.add_comm]

theorem yields_length_readFields {read : Codec → Decoder Value} {size : Codec → Nat} {fields : List FieldCodec}
    (h : ∀ f ∈ fields, (read f.codec).Yields fun bytes _ => bytes.length = size f.codec) :
    (readFields read fields).Yields fun bytes _ => bytes.length = (fields.map fun f => size f.codec).sum := by
  induction fields with
  | nil => exact yields_pure rfl
  | cons field rest ih =>
    obtain ⟨hfield, hrest⟩ := List.forall_mem_cons.mp h
    refine yields_bind (hfield.mono ?_)
    intro x value hx
    refine yields_bind ((ih hrest).mono ?_)
    intro y values hy
    refine yields_pure ?_
    rw [List.append_nil, List.length_append, hx, hy, List.map_cons, List.sum_cons]

theorem Layout.yields_length {read : Codec → Decoder Value} {size : Codec → Nat} {layout : Layout}
    (h : ∀ codec, layout.Holds codec → (read codec).Yields fun bytes _ => bytes.length = size codec)
    (hsum : layout.Sums size n) (key : String) : (layout.read read key).Yields fun bytes _ => bytes.length = n := by
  cases layout with
  | struct fields =>
    refine yields_bind ((yields_length_readFields fun f hf => h f.codec (.field hf)).mono ?_)
    intro bytes values hbytes
    refine yields_pure ?_
    rw [List.append_nil, hbytes, hsum]
  | simpleEnum names =>
    refine yields_bind ((Reader.yields_number 1).mono ?_)
    rintro _ index ⟨rfl, -⟩
    cases names[index]? with
    | none => exact yields_throw _
    | some name => exact yields_pure (by simp [show n = 1 from hsum])
  | complexEnum variants =>
    refine yields_bind ((Reader.yields_number 1).mono ?_)
    rintro _ index ⟨rfl, -⟩
    cases hv : variants[index]? with
    | none => exact yields_throw _
    | some v =>
      have hmem : v ∈ variants := List.mem_of_getElem? hv
      have hn := hsum.2 v hmem
      have hfields := yields_length_readFields fun f hf => h f.codec (.payload hmem hf)
      obtain ⟨name, fields⟩ := v
      cases fields with
      | none => exact yields_pure (by simp [hn])
      | some fields =>
        refine yields_bind (hfields.mono ?_)
        intro bytes values hbytes
        refine yields_pure ?_
        rw [List.append_nil, List.length_append, Bytes.length_leBytes, hbytes, hn, Nat.add_comm]
  | aliasOf codec =>
    rw [show n = size codec from hsum]
    exact h codec .aliased

/-- The induction is on the levels, and follows the sum into its parts. -/
theorem LayoutSet.Occupies.yields {codec : Codec} (h : set.Occupies codec n) (levels : Nat) :
    (set.readAt levels codec).Yields fun bytes _ => bytes.length = n := by
  induction levels generalizing codec n with
  | zero => exact yields_throw _
  | succ levels ih =>
    cases h with
    | bool =>
      refine yields_bind (Reader.yields_bool.mono ?_)
      rintro _ b rfl
      exact yields_pure rfl
    | scalar s =>
      refine yields_bind ((Reader.yields_bytes s.size).mono ?_)
      rintro front _ ⟨hlength, rfl⟩
      refine yields_pure ?_
      rw [List.append_nil, hlength]
    | @array inner length n hinner =>
      rw [readAt]
      cases set.refuseZeroSized inner length with
      | some error => exact yields_bind (yields_throw _)
      | none =>
        refine yields_bind ((Reader.yields_ensure _ _).mono ?_)
        rintro _ _ rfl
        refine yields_bind ((yields_length_times (ih hinner) length).mono ?_)
        intro bytes items hbytes
        refine yields_pure ?_
        rw [List.append_nil, List.nil_append, hbytes]
    | defined hkey hparts hsum =>
      rw [readAt, hkey]
      exact Layout.yields_length (fun codec hcodec => ih (hparts codec hcodec)) hsum _

end Read

namespace LayoutSet

variable {types : List TypeDef} {set : LayoutSet}

/-- An exact size is the number of bytes of every value that is written or read, and no sum wraps around
on the way to it. -/
theorem fixedSize_exact (hset : (Registry.ofTypes types).Finishes set) {codec : Codec} {n : Nat}
    (h : set.fixedSize? codec = some n) :
    (∀ v bytes, set.encode codec v = .ok bytes → bytes.length = n)
      ∧ (∀ r v s, (set.decodeFrom codec).run r = (.ok v, s) →
        s.index = r.index + n ∧ s.rest = r.rest.drop n ∧ n ≤ r.rest.length)
      ∧ (∀ m, set.Occupies codec m ↔ m = n) ∧ n < sizeLimit := by
  obtain ⟨hsum, hlt⟩ := measures_of_fixedSize? h
  refine ⟨?_, ?_, ?_, hlt⟩
  · intro v bytes
    exact bytes_of_encode hset hsum.yields
  · intro r v s hrun
    obtain ⟨bytes, hrest, hindex, rfl⟩ := hsum.yields _ r v s hrun
    refine ⟨hindex, ?_, ?_⟩
    · rw [hrest, List.drop_left]
    · rw [hrest, List.length_append]
      omega
  · intro m
    constructor
    · intro hm
      exact hm.unique hsum
    · rintro rfl
      exact hsum

/-- Both kinds of cell have two bytes behind their index. -/
theorem fixedSize_exact_cells :
    let cell : TypeDef := ⟨"Cell", [], .borsh, none, [], .enum
      [⟨"wide", some (.named [⟨"n", [], .prim (.scalar .u16)⟩])⟩,
        ⟨"pair", some (.tuple [.prim (.scalar .u8), .prim .bool])⟩]⟩
    let row : TypeDef := ⟨"Row", [], .borsh, none, [], .aliasOf (.array (some (.defined "Cell" [])) (.value 2))⟩
    let set : LayoutSet := ⟨[
      ("Cell", .complexEnum [⟨"wide", some [⟨"n", .prim (.scalar .u16)⟩]⟩,
        ⟨"pair", some [⟨"v0", .prim (.scalar .u8)⟩, ⟨"v1", .prim .bool⟩]⟩]),
      ("Row", .aliasOf (.array (.defined "Cell") 2))]⟩
    let wide : Value := .enum "wide" (some [("n", .ofNat .u16 258)])
    let pair : Value := .enum "pair" (some [("v0", .ofNat .u8 7), ("v1", .bool true)])
    (Registry.ofTypes [cell, row]).Finishes set ∧ set.fixedSize? (.defined "Row") = some 6
      ∧ set.encode (.defined "Row") (.array [wide, pair]) = .ok [0, 2, 1, 1, 7, 1] ∧ [0, 2, 1, 1, 7, 1].length = 6
      ∧ (set.decodeFrom (.defined "Row")).run ⟨3, [0, 2, 1, 1, 7, 1, 9]⟩ = (.ok (.array [wide, pair]), ⟨9, [9]⟩)
      ∧ 9 = 3 + 6 ∧ set.Occupies (.defined "Row") 6 := by
  intro cell row set wide pair
  have hset : (Registry.ofTypes [cell, row]).Finishes set := ⟨[.definitions], by decide +kernel⟩
  have hsize : set.fixedSize? (.defined "Row") = some 6 := by decide +kernel
  have hwrite : set.encode (.defined "Row") (.array [wide, pair]) = .ok [0, 2, 1, 1, 7, 1] := by decide +kernel
  have hread : (set.decodeFrom (.defined "Row")).run ⟨3, [0, 2, 1, 1, 7, 1, 9]⟩
      = (.ok (.array [wide, pair]), ⟨9, [9]⟩) := rfl
  obtain ⟨hencode, hdecode, hsum, -⟩ := fixedSize_exact hset hsize
  exact ⟨hset, hsize, hwrite, hencode _ _ hwrite, hread, (hdecode _ _ _ hread).1, (hsum 6).mpr rfl⟩

end LayoutSet

end WireSchema
