import WireSchema.Proofs.Derivation.Moves
import WireSchema.Proofs.Derivation.Requests
import WireSchema.Proofs.Schema.Validation

/-!
# Keys without a layout

Codecs can be asked for one after the other, and one that fails does not keep
the others from being derived. What is handed out at the end holds a layout for
every key as long as nothing failed. A derivation that fails while it is inside
of an instance gives that instance up, but the layouts that were stored inside
of it stay, and they may name it: no other key is ever left without a layout.
-/

namespace WireSchema

set_option autoImplicit false

open Schema Registry WireSchema.Derivation DerivationState

/-- Every key anywhere inside a layout has a layout. -/
def LayoutSet.Closed (set : LayoutSet) : Prop :=
  ∀ key layout, set.get? key = some layout → ∀ inner ∈ layout.keys, set.contains inner = true

namespace Registry

variable {registry : Registry} {G : Bindings → Ty → Prop} {A : Instance → Prop} {s t u : DerivationState}
  {i j : Instance}

/-- The keys in the layout of `j` are known in `t`, but for those of instances around `j` that were given
up. -/
def Frays (registry : Registry) (G : Bindings → Ty → Prop) (A : Instance → Prop) (t : DerivationState)
    (j : Instance) : Prop :=
  ∀ layout, registry.layout? j = some layout → ∀ key ∈ layout.keys, t.isKnown key = true ∨
    ∃ i, registry.Names G i ∧ i.key = key ∧ A i ∧ registry.Names (registry.Within i) j

theorem Frays.mono {H : Bindings → Ty → Prop} (h : registry.Frays G A s j)
    (hnames : ∀ i, registry.Names G i → registry.Names H i)
    (hst : ∀ key, s.isKnown key = true → t.isKnown key = true) : registry.Frays H A t j := by
  intro layout hlayout key hkey
  refine (h layout hlayout key hkey).imp (hst key) ?_
  rintro ⟨i, hi, hrest⟩
  exact ⟨i, hnames i hi, hrest⟩

theorem Adds.widen {H : Bindings → Ty → Prop} {P : Instance → Prop} (h : registry.Adds G P s t)
    (hnames : ∀ i, registry.Names G i → registry.Names H i) : registry.Adds H P s t := by
  intro key layout hkey
  refine (h key layout hkey).imp id ?_
  rintro ⟨i, hi, hrest⟩
  exact ⟨i, hnames i hi, hrest⟩

/-- The induction is on the moves. An instance that is given up was known until then, so the layouts
that name it are among those stored while it was under way. -/
theorem Moves.frays (h : registry.Moves A G s t) (hclosed : registry.Closed G) :
    registry.Adds G (registry.Frays G A t) s t := by
  induction h with
  | refl s => exact .of_layouts_eq rfl
  | trans _ htu ihst ihtu =>
    exact (ihst hclosed).trans (fun j hj => hj.mono (fun _ => id) fun _ => htu.extension.known) (ihtu hclosed)
  | @stored G s t i layout hi hknown _ hmoves hlayout hkeys ih =>
    have hnames := fun j => names_of_within (j := j) hclosed hi
    have hstore : ∀ key, t.isKnown key = true →
        ((t.finish i.name i.key).store i.key layout).isKnown key = true :=
      fun _ => isKnown_store
    have hself : registry.Frays G A ((t.finish i.name i.key).store i.key layout) i := by
      intro other hother key hkey
      rw [hlayout] at hother
      cases hother
      exact .inl (hstore key (hkeys key hkey))
    have hinside := (ih (registry.closed_within i)).widen hnames
    exact Adds.store hi hlayout hself (hinside.mono fun j hj => hj.mono hnames hstore)
  | @abandoned G s t i hi hknown _ hmoves hA ih =>
    have hnames := fun j => names_of_within (j := j) hclosed hi
    have hinside := ih (registry.closed_within i)
    intro key layout hkey
    rcases hinside key layout hkey with hs | ⟨j, hj, hjkey, hlayout, hfrays⟩
    · exact .inl hs
    · refine .inr ⟨j, hnames j hj, hjkey, hlayout, ?_⟩
      intro other hother inner hinner
      rcases hfrays other hother inner hinner with ht | ⟨k, hk, hkkey, hAk, hjk⟩
      · rcases isKnown_finish i.name i.key ht with hfinish | rfl
        · exact .inl hfinish
        · exact .inr ⟨i, hi, rfl, hA, hj⟩
      · exact .inr ⟨k, hnames k hk, hkkey, hAk, hjk⟩

/-- The derivation of `ty` failed with `e` inside of an instance whose key is `inner`. The layout under
`key`, in which that key stands, belongs to an instance inside of it and stays. -/
def Strands (registry : Registry) (ty : Ty) (e : DerivationError) (key : String) (layout : Layout)
    (inner : String) : Prop :=
  ∃ i j, registry.Names (registry.Reaches [ty]) i ∧ i.key = inner ∧ registry.Fails e i
    ∧ registry.Names (registry.Within i) j ∧ j.key = key ∧ registry.layout? j = some layout

/-- A type and the path at which errors say it stands. -/
abbrev Call : Type := Option Ty × String

abbrev Answer : Type := Except DerivationError Codec

/-- What calls that are answered in turn make of `s`. -/
structure Supplies (registry : Registry) (calls : List Call) (answers : List Answer)
    (s t : DerivationState) : Prop where
  extension : s.Extends t
  known : ∀ codec, .ok codec ∈ answers → t.Knows codec.keys
  stored : ∀ key layout, t.layouts.get? key = some layout → s.layouts.get? key = some layout ∨
    ∀ inner ∈ layout.keys, t.isKnown inner = true ∨ ∃ ty path e,
      ((some ty, path), Except.error e) ∈ calls.zip answers ∧ registry.Strands ty e key layout inner

theorem supplies_nil (s : DerivationState) : registry.Supplies [] [] s s where
  extension := .refl s
  known _ h := nomatch h
  stored _ _ h := .inl h

theorem proceeds_codec (registry : Registry) (ty : Ty) (path : String) :
    Proceeds registry (registry.Reaches [ty]) [] (registry.codec (some ty) path) Codec.keys :=
  proceeds_type (registry.reaches_closed [ty]) (layoutsProceed registry registry.nesting) ty
    (.root (List.mem_singleton_self ty)) path

theorem supplies_call {call : Call} {answer : Answer}
    (h : (registry.codec call.1 call.2).run s = (answer, t)) : registry.Supplies [call] [answer] s t := by
  obtain ⟨ty, path⟩ := call
  cases ty with
  | none =>
    cases h
    exact ⟨.refl s, by simp, fun _ _ => .inl⟩
  | some ty =>
    have hclosed := registry.reaches_closed [ty]
    have hproceeds := proceeds_codec registry ty path
    cases answer with
    | ok codec =>
      obtain ⟨hmoves, hkeys⟩ := hproceeds.ok s codec t (knows_nil s) h
      refine ⟨hmoves.extension, by simpa using hkeys, fun key layout hkey => ?_⟩
      refine (hmoves.frays hclosed key layout hkey).imp id ?_
      rintro ⟨j, -, -, hlayout, hfrays⟩ inner hinner
      exact .inl ((hfrays layout hlayout inner hinner).resolve_right fun ⟨i, _, _, hfalse, _⟩ => hfalse)
    | error e =>
      have hmoves := hproceeds.error s e t (knows_nil s) h
      refine ⟨hmoves.extension, by simp, fun key layout hkey => ?_⟩
      refine (hmoves.frays hclosed key layout hkey).imp id ?_
      rintro ⟨j, -, hjkey, hlayout, hfrays⟩ inner hinner
      refine (hfrays layout hlayout inner hinner).imp id ?_
      rintro ⟨i, hi, hikey, hfails, hj⟩
      exact ⟨ty, path, e, by simp, i, j, hi, hikey, hfails, hj, hjkey, hlayout⟩

theorem Supplies.cons {call : Call} {answer : Answer} {calls : List Call} {answers : List Answer}
    (hst : registry.Supplies [call] [answer] s t) (htu : registry.Supplies calls answers t u) :
    registry.Supplies (call :: calls) (answer :: answers) s u where
  extension := hst.extension.trans htu.extension
  known codec h := by
    rcases List.mem_cons.mp h with rfl | h
    · exact (hst.known codec (List.mem_singleton_self _)).mono htu.extension
    · exact htu.known codec h
  stored key layout hkey := by
    rcases htu.stored key layout hkey with ht | hnew
    · refine (hst.stored key layout ht).imp id fun hnew inner hinner => ?_
      refine (hnew inner hinner).imp htu.extension.known ?_
      rintro ⟨ty, path, e, hcall, hstrands⟩
      obtain ⟨rfl, rfl⟩ := Prod.mk.inj (List.mem_singleton.mp hcall)
      exact ⟨ty, path, e, List.mem_cons_self, hstrands⟩
    · refine .inr fun inner hinner => (hnew inner hinner).imp id ?_
      rintro ⟨ty, path, e, hcall, hstrands⟩
      exact ⟨ty, path, e, List.mem_cons_of_mem _ hcall, hstrands⟩

/-- Codecs asked for in turn. An error is an answer like any other. -/
def answers (registry : Registry) (calls : List Call) : Derivation (List Answer) :=
  calls.mapM fun call => outcome (registry.codec call.1 call.2)

/-- The answers to some calls, and the layouts that are handed out after them. -/
def session (registry : Registry) (calls : List Call) :
    Except DerivationError (List Answer × LayoutSet) :=
  Derivation.result do
    let answers ← registry.answers calls
    return (answers, ← finishedLayouts)

theorem supplies_answers {calls : List Call} {answers : List Answer}
    (h : (registry.answers calls).run s = (.ok answers, t)) : registry.Supplies calls answers s t := by
  induction calls generalizing s answers with
  | nil =>
    cases h
    exact supplies_nil _
  | cons call rest ih =>
    rw [Registry.answers, List.mapM_cons] at h
    obtain ⟨answer, u, hcall, h⟩ := Step.ok_of_run_bind h
    obtain ⟨others, v, hrest, h⟩ := Step.ok_of_run_bind h
    cases h
    have hanswer : (registry.codec call.1 call.2).run s = (answer, u) := by
      cases hcall
      rfl
    exact (supplies_call hanswer).cons (ih hrest)

/-- What is known is stored when nothing is under way. -/
theorem contains_of_isKnown {key : String} (hunder : t.underWay = []) (h : t.isKnown key = true) :
    t.layouts.contains key = true := by
  simpa [DerivationState.isKnown, hunder] using h

theorem session_supplies {calls : List Call} {answers : List Answer} {set : LayoutSet}
    (h : registry.session calls = .ok (answers, set)) :
    ∃ t, registry.Supplies calls answers .initial t ∧ t.layouts = set := by
  obtain ⟨u, hrun⟩ := run_of_result h
  obtain ⟨found, t, hanswers, hrun⟩ := Step.ok_of_run_bind hrun
  obtain ⟨layouts, v, hfinished, hrun⟩ := Step.ok_of_run_bind hrun
  cases hrun
  exact ⟨t, supplies_answers hanswers, ok_of_finishedLayouts (congrArg Prod.fst hfinished)⟩

/-- Every codec that was answered has its layouts, and so has every layout, unless a call failed inside
of an instance that it names. -/
theorem session_closed {calls : List Call} {answers : List Answer} {set : LayoutSet}
    (h : registry.session calls = .ok (answers, set)) :
    (∀ codec, .ok codec ∈ answers → ∀ key ∈ codec.keys, set.contains key = true)
      ∧ (∀ key layout, set.get? key = some layout → ∀ inner ∈ layout.keys,
        set.contains inner = true ∨ ∃ ty path e,
          ((some ty, path), Except.error e) ∈ calls.zip answers ∧ registry.Strands ty e key layout inner)
      ∧ ((∀ answer ∈ answers, answer.isOk = true) → set.Closed) := by
  obtain ⟨t, hsupplies, rfl⟩ := session_supplies h
  have hcontains : ∀ key, t.isKnown key = true → t.layouts.contains key = true :=
    fun key => contains_of_isKnown hsupplies.extension.underWay
  have hlayouts : ∀ key layout, t.layouts.get? key = some layout → ∀ inner ∈ layout.keys,
      t.layouts.contains inner = true ∨ ∃ ty path e, ((some ty, path), Except.error e) ∈ calls.zip answers
        ∧ registry.Strands ty e key layout inner := by
    intro key layout hkey inner hinner
    rcases hsupplies.stored key layout hkey with hinitial | hnew
    · cases hinitial
    · exact (hnew inner hinner).imp (hcontains inner) id
  refine ⟨fun codec hcodec key hkey => hcontains key (hsupplies.known codec hcodec key hkey), hlayouts, ?_⟩
  intro hok key layout hkey inner hinner
  refine (hlayouts key layout hkey inner hinner).resolve_right ?_
  rintro ⟨ty, path, e, hcall, -⟩
  cases hok _ (List.of_mem_zip hcall).2

/-- The node has an array without a length, so there is no layout for it. The layout of the link was
stored inside of it, and from then on links are answered. -/
theorem session_closed_link :
    let node : TypeDef := .record "Node" []
      [("next", .option .byte (some (.defined "Link" []))),
        ("cells", .array (some (.prim (.scalar .u8))) (.generic "N"))]
    let link : TypeDef := .record "Link" [] [("node", .option .byte (some (.defined "Node" [])))]
    let registry := Registry.ofTypes [node, link]
    let calls : List Call := [(some (.defined "Node" []), "first"), (some (.defined "Link" []), "second")]
    let answers : List Answer := [.error (.genericArrayLength "N" "Node.cells"), .ok (.defined "Link")]
    let layout : Layout := .struct [⟨"node", .option .byte (.defined "Node")⟩]
    let set : LayoutSet := ⟨[("Link", layout)]⟩
    registry.session calls = .ok (answers, set) ∧ set.contains "Link" = true
      ∧ ∃ ty path e, ((some ty, path), Except.error e) ∈ calls.zip answers
        ∧ registry.Strands ty e "Link" layout "Node" := by
  intro node link registry calls answers layout set
  have hsession : registry.session calls = .ok (answers, set) := rfl
  obtain ⟨hcodecs, hlayouts, -⟩ := session_closed hsession
  refine ⟨hsession, hcodecs (.defined "Link") (.tail _ (.head _)) "Link" (.head _), ?_⟩
  exact (hlayouts "Link" layout rfl "Node" (.head _)).resolve_left (by decide)

/-- One call that fails is enough for a layout with a key that has none. -/
theorem not_closed_after_failure :
    let node : TypeDef := .record "Node" []
      [("next", .option .byte (some (.defined "Link" []))),
        ("cells", .array (some (.prim (.scalar .u8))) (.generic "N"))]
    let link : TypeDef := .record "Link" [] [("node", .option .byte (some (.defined "Node" [])))]
    ∃ answer set, (Registry.ofTypes [node, link]).session [(some (.defined "Node" []), "first")]
      = .ok ([.error answer], set) ∧ ¬ set.Closed := by
  intro node link
  refine ⟨.genericArrayLength "N" "Node.cells",
    ⟨[("Link", .struct [⟨"node", .option .byte (.defined "Node")⟩])]⟩, rfl, ?_⟩
  intro hclosed
  have hnode := hclosed "Link" _ rfl "Node" (.head _)
  cases hnode

end Registry

end WireSchema
