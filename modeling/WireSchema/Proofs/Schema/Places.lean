import WireSchema.Proofs.Schema.TyInduction
import WireSchema.Schema.Walk

/-!
# The places of a walk

A walk with any visitor is a visit to the places of a fixed list, one after the
other, until the visitor stops. The list does not depend on the visitor: it
follows the document. What a visitor does at a place is its own affair.
-/

namespace WireSchema.Schema

set_option autoImplicit false

/-- A place and the type that stands there, if one does. -/
abbrev Place : Type := Path × Option Ty

mutual

def Ty.places (path : Path) : Ty → List Place
  | .option tag inner => (path, some (.option tag inner)) :: slotPlaces (path ++ [.key tag.key]) inner
  | .vec inner => (path, some (.vec inner)) :: slotPlaces (path ++ [.key "vec"]) inner
  | .array inner length => (path, some (.array inner length)) :: slotPlaces (path ++ [.key "array"]) inner
  | .defined name args => (path, some (.defined name args)) :: argPlaces path 0 args
  | .prim p => [(path, some (.prim p))]
  | .generic name => [(path, some (.generic name))]

def slotPlaces (path : Path) : Option Ty → List Place
  | none => [(path, none)]
  | some ty => ty.places path

def argPlaces (path : Path) (i : Nat) : List GenericArg → List Place
  | [] => []
  | .type ty :: rest => ty.places (path.item "generics" i) ++ argPlaces path (i + 1) rest
  | .const _ :: rest => argPlaces path (i + 1) rest

end

/-- The places of items, each with its index, from `i` on. -/
def eachPlaces {α : Type} (places : Nat → α → List Place) (i : Nat) : List α → List Place
  | [] => []
  | item :: rest => places i item ++ eachPlaces places (i + 1) rest

def Fields.places (path : Path) : Fields → List Place
  | .named fields => eachPlaces (fun i f => f.ty.places (path.item "fields" i)) 0 fields
  | .tuple types => eachPlaces (fun i ty => ty.places (path.item "fields" i)) 0 types

def Variant.places (path : Path) (v : Variant) : List Place :=
  match v.fields with
  | some fields => fields.places path
  | none => []

def Body.places (path : Path) : Body → List Place
  | .struct (some fields) => fields.places path
  | .struct none => []
  | .enum variants => eachPlaces (fun i v => v.places (path.item "variants" i)) 0 variants
  | .aliasOf ty => ty.places (path ++ [.key "alias"])

def Instruction.places (path : Path) (ix : Instruction) : List Place :=
  eachPlaces (fun i f => f.ty.places (path.item "args" i)) 0 ix.args
    ++ match ix.returns with
      | some ty => ty.places (path ++ [.key "returns"])
      | none => []

/-- The places of a document in their order. -/
def Document.listed (doc : Document) : List Place :=
  let root : Path := []
  eachPlaces (fun i ix => ix.places (root.item "instructions" i)) 0 doc.instructions
    ++ (eachPlaces (fun i d => d.body.places (root.item "types" i)) 0 doc.types
      ++ eachPlaces (fun i c => c.ty.places (root.item "constants" i)) 0 doc.constants)

variable {σ : Type}

/-- One place after the other, as long as the visitor goes on. -/
def visitAll (visit : Visitor σ) : List Place → StateM σ Bool
  | [] => return true
  | (path, slot) :: rest => thenWalk (visit path slot) (visitAll visit rest)

@[simp] theorem true_thenWalk (second : StateM σ Bool) : thenWalk (return true) second = second := by
  simp [thenWalk]

@[simp] theorem thenWalk_true (first : StateM σ Bool) : thenWalk first (return true) = first := by
  have hgo : ∀ go : Bool, (if go then return true else return false : StateM σ Bool) = return go := by
    intro go
    cases go <;> rfl
  rw [thenWalk, funext hgo, bind_pure]

theorem thenWalk_assoc (first second third : StateM σ Bool) :
    thenWalk (thenWalk first second) third = thenWalk first (thenWalk second third) := by
  unfold thenWalk
  rw [bind_assoc]
  congr 1
  funext go
  cases go <;> simp

section Walk

variable (visit : Visitor σ)

theorem visitAll_append (xs ys : List Place) :
    visitAll visit (xs ++ ys) = thenWalk (visitAll visit xs) (visitAll visit ys) := by
  induction xs with
  | nil => exact (true_thenWalk _).symm
  | cons place rest ih =>
    obtain ⟨path, slot⟩ := place
    rw [List.cons_append, visitAll, visitAll, ih, thenWalk_assoc]

@[simp] theorem visitAll_singleton (path : Path) (slot : Option Ty) :
    visitAll visit [(path, slot)] = visit path slot :=
  thenWalk_true _

theorem walkSlot_eq {inner : Option Ty}
    (h : ∀ ty ∈ inner, ∀ path, ty.walk visit path = visitAll visit (ty.places path)) (path : Path) :
    walkSlot visit path inner = visitAll visit (slotPlaces path inner) := by
  cases inner with
  | none => exact (visitAll_singleton visit path none).symm
  | some ty => exact h ty rfl path

theorem walkArgs_eq {args : List GenericArg}
    (h : ∀ ty, GenericArg.type ty ∈ args → ∀ path, ty.walk visit path = visitAll visit (ty.places path))
    (path : Path) (i : Nat) : walkArgs visit path i args = visitAll visit (argPlaces path i args) := by
  induction args generalizing i with
  | nil => rfl
  | cons arg rest ih =>
    have hrest := ih fun ty hty => h ty (List.mem_cons_of_mem _ hty)
    cases arg with
    | type ty => rw [walkArgs, argPlaces, visitAll_append, h ty List.mem_cons_self, hrest]
    | const value => exact hrest (i + 1)

theorem Ty.walk_eq (ty : Ty) (path : Path) : ty.walk visit path = visitAll visit (ty.places path) := by
  induction ty using Ty.induction generalizing path with
  | prim p => exact (visitAll_singleton visit path _).symm
  | option tag inner ih => rw [Ty.walk, Ty.places, visitAll, walkSlot_eq visit ih]
  | vec inner ih => rw [Ty.walk, Ty.places, visitAll, walkSlot_eq visit ih]
  | array inner length ih => rw [Ty.walk, Ty.places, visitAll, walkSlot_eq visit ih]
  | defined name args ih => rw [Ty.walk, Ty.places, visitAll, walkArgs_eq visit ih]
  | generic name => exact (visitAll_singleton visit path _).symm

theorem walkEach_eq {α : Type} {walk : Nat → α → StateM σ Bool} {places : Nat → α → List Place}
    (h : ∀ i item, walk i item = visitAll visit (places i item)) (i : Nat) (items : List α) :
    walkEach walk i items = visitAll visit (eachPlaces places i items) := by
  induction items generalizing i with
  | nil => rfl
  | cons item rest ih => rw [walkEach, eachPlaces, visitAll_append, h, ih]

theorem Fields.walk_eq (fields : Fields) (path : Path) :
    fields.walk visit path = visitAll visit (fields.places path) := by
  cases fields with
  | named fields => exact walkEach_eq visit (fun i f => f.ty.walk_eq visit _) 0 fields
  | tuple types => exact walkEach_eq visit (fun i ty => ty.walk_eq visit _) 0 types

theorem Variant.walk_eq (v : Variant) (path : Path) : v.walk visit path = visitAll visit (v.places path) := by
  obtain ⟨name, _ | fields⟩ := v
  · rfl
  · exact fields.walk_eq visit path

theorem Body.walk_eq (body : Body) (path : Path) : body.walk visit path = visitAll visit (body.places path) := by
  cases body with
  | struct fields =>
    cases fields with
    | none => rfl
    | some fields => exact fields.walk_eq visit path
  | enum variants => exact walkEach_eq visit (fun i v => v.walk_eq visit _) 0 variants
  | aliasOf ty => exact ty.walk_eq visit _

theorem Instruction.walk_eq (ix : Instruction) (path : Path) :
    ix.walk visit path = visitAll visit (ix.places path) := by
  rw [Instruction.walk, Instruction.places, visitAll_append,
    walkEach_eq visit (fun i f => Ty.walk_eq visit (Field.ty f) (path.item "args" i)) 0 ix.args]
  cases ix.returns with
  | none => rfl
  | some ty =>
    dsimp only
    rw [ty.walk_eq]

/-- Every walk visits the listed places in turn. -/
theorem Document.walk_eq (doc : Document) : doc.walk visit = visitAll visit doc.listed := by
  have hinstructions := walkEach_eq visit
    (fun i ix => Instruction.walk_eq visit ix (Path.item [] "instructions" i)) 0 doc.instructions
  have htypes := walkEach_eq visit
    (fun i d => Body.walk_eq visit (TypeDef.body d) (Path.item [] "types" i)) 0 doc.types
  have hconstants := walkEach_eq visit
    (fun i c => Ty.walk_eq visit (Constant.ty c) (Path.item [] "constants" i)) 0 doc.constants
  rw [Document.walk, Document.listed, visitAll_append, visitAll_append, hinstructions, htypes, hconstants]

end Walk

/-- A visitor that notes every place and never stops comes to all of them. -/
theorem visitAll_note (places noted : List Place) :
    visitAll (fun path slot => do
      modify ((path, slot) :: ·)
      return true) places noted = (true, places.reverse ++ noted) := by
  induction places generalizing noted with
  | nil => rfl
  | cons place rest ih =>
    rw [List.reverse_cons, List.append_assoc]
    exact ih (place :: noted)

theorem Document.places_eq (doc : Document) : doc.places = doc.listed := by
  unfold Document.places
  dsimp only
  rw [Document.walk_eq, visitAll_note, List.append_nil, List.reverse_reverse]

end WireSchema.Schema
