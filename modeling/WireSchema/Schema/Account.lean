import WireSchema.Schema.Record

/-!
# The accounts of an instruction

Accounts stand in a tree: an item is one account or a named group of items.
`flatten` lists the accounts in the order of the document, each with the names
of the groups around it. Two accounts may have one qualified name.
-/

namespace WireSchema.Schema

set_option autoImplicit false

/-- A piece of what an address is derived from. -/
inductive Seed where
  | const (value : List UInt8)
  | arg (path : String)
  | account (path : String) (type : Option String)
deriving DecidableEq, Repr

/-- How an address is derived: from seeds, under this program or the one that a seed gives. -/
structure Pda where
  seeds : List Seed
  program : Option Seed
deriving DecidableEq, Repr

structure AccountSlot where
  name : String
  docs : List String
  writable : Bool
  signer : Bool
  optional : Bool
  address : Option String
  pda : Option Pda
  relations : List String
deriving DecidableEq, Repr

inductive AccountItem where
  | single (account : AccountSlot)
  | group (name : String) (items : List AccountItem)
deriving BEq, Repr

/-- An account with the names of its groups, the outermost first. -/
structure FlatAccount where
  groups : List String
  account : AccountSlot

def FlatAccount.qualifiedName (a : FlatAccount) : String :=
  ".".intercalate (a.groups ++ [a.account.name])

mutual

/-- The accounts of an item that stands inside the given groups. -/
def AccountItem.flatten (groups : List String) : AccountItem → List FlatAccount
  | .single account => [⟨groups, account⟩]
  | .group name items => flattenItems (groups ++ [name]) items

def flattenItems (groups : List String) : List AccountItem → List FlatAccount
  | [] => []
  | item :: rest => item.flatten groups ++ flattenItems groups rest

end

open ValueReader

def Seed.trials (json : Json) : Trials Seed := [
  ("const", do
    expectKind json "const"
    let part ← requireKey json "value"
    return .const (← asShape "seed bytes" (list byte) part.val)),
  ("arg", do
    expectKind json "arg"
    return .arg (← requireText json "path")),
  ("account", do
    expectKind json "account"
    let type ← match json.get? "account" with
      | none | some .null => pure none
      | some _ => some <$> requireText json "account"
    return .account (← requireText json "path") type)]

def Seed.read (json : Json) : Except ShapeError Seed :=
  firstMatch "IdlSeed" json (trials json)

def Pda.read : ValueReader Pda :=
  readRecord "IdlPda" 2 fun form =>
    FieldResult.start Pda.mk
      |>.and (form.required 0 "seeds" (list (ofShape Seed.read)))
      |>.and (form.optional 1 "program" (nullable (ofShape Seed.read)) none)

def AccountSlot.read : ValueReader AccountSlot :=
  readRecord "IdlInstructionAccount" 8 fun form =>
    FieldResult.start AccountSlot.mk
      |>.and (form.required 0 "name" text)
      |>.and (form.optional 1 "docs" (list text) [])
      |>.and (form.optional 2 "writable" bool false)
      |>.and (form.optional 3 "signer" bool false)
      |>.and (form.optional 4 "optional" bool false)
      |>.and (form.optional 5 "address" (nullable text) none)
      |>.and (form.optional 6 "pda" (nullable Pda.read) none)
      |>.and (form.optional 7 "relations" (list text) [])

/-- A group, when it is already known what its items are. -/
def readGroup (items : Except RecordError (List AccountItem)) : ValueReader AccountItem :=
  readRecord "IdlInstructionAccounts" 2 fun form =>
    FieldResult.start AccountItem.group
      |>.and (form.required 0 "name" text)
      |>.and (form.required 1 "accounts" fun _ => items)

mutual

def AccountItem.read (json : Json) : Except ShapeError AccountItem :=
  firstMatch "IdlInstructionAccountItem" json (AccountItem.trials json)
termination_by (sizeOf json, 1)

/-- An item with the key `accounts` is a group, any other a single account. -/
def AccountItem.trials (json : Json) : Trials AccountItem := [
  ("composite", do
    let part ← requireKey json "accounts"
    let items := match _h : part.val with
      | .arr items => items.attach.mapM fun ⟨item, _⟩ => (AccountItem.read item).mapError .shape
      | other => .error (.wrongType other "a sequence")
    asShape "IdlInstructionAccounts" (readGroup items) json),
  ("single",
    match json.get? "accounts" with
    | some _ => .error (.mismatch "single account" (payload json))
    | none => asShape "IdlInstructionAccount" (fun json => .single <$> AccountSlot.read json) json)]
termination_by (sizeOf json, 0)
decreasing_by
  apply Prod.Lex.left
  have inList := List.sizeOf_lt_of_mem ‹item ∈ items›
  have := part.property
  rw [_h] at this
  simp only [Json.arr.sizeOf_spec] at this
  omega

end

end WireSchema.Schema
