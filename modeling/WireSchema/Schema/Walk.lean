import WireSchema.Schema.Document

/-!
# Every place of a type

A walk visits each place where a document may have a type, in the order of the
document: the arguments of every instruction and then what it returns, the
definitions, the constants. A place inside a type comes right after the type.
Places where the document has `null` are visited too. The visitor says each
time whether to go on, and carries a state of its own.
-/

namespace WireSchema.Schema

set_option autoImplicit false

/-- One step from a value of the document into one of its parts. -/
inductive Segment where
  | key (name : String)
  | index (i : Nat)
deriving DecidableEq, Repr

/-- The steps from the document to a place. -/
abbrev Path : Type := List Segment

def Segment.text : Segment → String
  | .key name => s!"/{name}"
  | .index i => s!"/[{i}]"

def Path.text (path : Path) : String :=
  path.foldl (fun text segment => text ++ segment.text) "/idl"

/-- The place of an item in a list under a key. -/
def Path.item (path : Path) (key : String) (i : Nat) : Path :=
  path ++ [.key key, .index i]

/-- Looks at a place and its type, and answers whether the walk goes on. -/
abbrev Visitor (σ : Type) : Type := Path → Option Ty → StateM σ Bool

variable {σ : Type}

/-- One walk and, unless it was stopped, another. -/
def thenWalk (first second : StateM σ Bool) : StateM σ Bool := do
  if ← first then second else return false

/-- A walk over each item with its index, starting at `i`. -/
def walkEach {α : Type} (walk : Nat → α → StateM σ Bool) (i : Nat) : List α → StateM σ Bool
  | [] => return true
  | item :: rest => thenWalk (walk i item) (walkEach walk (i + 1) rest)

mutual

def Ty.walk (visit : Visitor σ) (path : Path) : Ty → StateM σ Bool
  | .option tag inner =>
    thenWalk (visit path (some (.option tag inner))) (walkSlot visit (path ++ [.key tag.key]) inner)
  | .vec inner =>
    thenWalk (visit path (some (.vec inner))) (walkSlot visit (path ++ [.key "vec"]) inner)
  | .array inner length =>
    thenWalk (visit path (some (.array inner length))) (walkSlot visit (path ++ [.key "array"]) inner)
  | .defined name args =>
    thenWalk (visit path (some (.defined name args))) (walkArgs visit path 0 args)
  | .prim p => visit path (some (.prim p))
  | .generic name => visit path (some (.generic name))

def walkSlot (visit : Visitor σ) (path : Path) : Option Ty → StateM σ Bool
  | none => visit path none
  | some ty => ty.walk visit path

def walkArgs (visit : Visitor σ) (path : Path) (i : Nat) : List GenericArg → StateM σ Bool
  | [] => return true
  | .type ty :: rest =>
    thenWalk (ty.walk visit (path.item "generics" i)) (walkArgs visit path (i + 1) rest)
  | .const _ :: rest => walkArgs visit path (i + 1) rest

end

def Fields.walk (visit : Visitor σ) (path : Path) : Fields → StateM σ Bool
  | .named fields => walkEach (fun i f => f.ty.walk visit (path.item "fields" i)) 0 fields
  | .tuple types => walkEach (fun i ty => ty.walk visit (path.item "fields" i)) 0 types

def Variant.walk (visit : Visitor σ) (path : Path) (v : Variant) : StateM σ Bool :=
  match v.fields with
  | some fields => fields.walk visit path
  | none => return true

def Body.walk (visit : Visitor σ) (path : Path) : Body → StateM σ Bool
  | .struct (some fields) => fields.walk visit path
  | .struct none => return true
  | .enum variants => walkEach (fun i v => v.walk visit (path.item "variants" i)) 0 variants
  | .aliasOf ty => ty.walk visit (path ++ [.key "alias"])

def Instruction.walk (visit : Visitor σ) (path : Path) (ix : Instruction) : StateM σ Bool :=
  thenWalk (walkEach (fun i f => f.ty.walk visit (path.item "args" i)) 0 ix.args)
    (match ix.returns with
    | some ty => ty.walk visit (path ++ [.key "returns"])
    | none => return true)

/-- Walk a whole document; the answer is whether the visitor never stopped the walk. -/
def Document.walk (visit : Visitor σ) (doc : Document) : StateM σ Bool :=
  let root : Path := []
  thenWalk (walkEach (fun i ix => ix.walk visit (root.item "instructions" i)) 0 doc.instructions)
    (thenWalk (walkEach (fun i d => d.body.walk visit (root.item "types" i)) 0 doc.types)
      (walkEach (fun i c => c.ty.walk visit (root.item "constants" i)) 0 doc.constants))

/-- The places in the order in which they are visited. -/
def Document.places (doc : Document) : List (Path × Option Ty) :=
  let note : Visitor (List (Path × Option Ty)) := fun path slot => do
    modify ((path, slot) :: ·)
    return true
  (doc.walk note []).2.reverse

end WireSchema.Schema
