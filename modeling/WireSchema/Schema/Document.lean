import WireSchema.Schema.Account
import WireSchema.Schema.Definition

/-!
# Documents

The whole description of a program: what it is, its instructions, the accounts
and events with a type of their own, its errors, type definitions and constants.
-/

namespace WireSchema.Schema

set_option autoImplicit false

structure Dependency where
  name : String
  version : String
deriving DecidableEq, Repr

/-- The address of the program on each cluster where it is known. -/
structure Deployments where
  mainnet : Option String
  testnet : Option String
  devnet : Option String
  localnet : Option String
deriving DecidableEq, Repr

structure Metadata where
  name : String
  version : String
  spec : String
  description : Option String
  repository : Option String
  dependencies : List Dependency
  contact : Option String
  deployments : Option Deployments
deriving DecidableEq, Repr

/-- An instruction. An empty discriminator stands for the computed one. -/
structure Instruction where
  name : String
  docs : List String
  discriminator : List UInt8
  accounts : List AccountItem
  args : List Field
  returns : Option Ty
deriving BEq, Repr

/-- An account or an event: the name of its type definition, and its discriminator if one is given. -/
structure Entity where
  name : String
  discriminator : List UInt8
deriving DecidableEq, Repr

structure ErrorCode where
  code : Nat
  name : String
  msg : Option String
deriving DecidableEq, Repr

/-- A constant with the text of its value. -/
structure Constant where
  name : String
  docs : List String
  ty : Ty
  value : String
deriving BEq, Repr

structure Document where
  address : Option String
  metadata : Metadata
  docs : List String
  instructions : List Instruction
  accounts : List Entity
  events : List Entity
  errors : List ErrorCode
  types : List TypeDef
  constants : List Constant
deriving BEq, Repr

open ValueReader

def Dependency.read : ValueReader Dependency :=
  readRecord "IdlDependency" 2 fun form =>
    FieldResult.start Dependency.mk
      |>.and (form.required 0 "name" text)
      |>.and (form.required 1 "version" text)

def Deployments.read : ValueReader Deployments :=
  readRecord "IdlDeployments" 4 fun form =>
    FieldResult.start Deployments.mk
      |>.and (form.optional 0 "mainnet" (nullable text) none)
      |>.and (form.optional 1 "testnet" (nullable text) none)
      |>.and (form.optional 2 "devnet" (nullable text) none)
      |>.and (form.optional 3 "localnet" (nullable text) none)

def Metadata.read : ValueReader Metadata :=
  readRecord "IdlMetadata" 8 fun form =>
    FieldResult.start Metadata.mk
      |>.and (form.required 0 "name" text)
      |>.and (form.required 1 "version" text)
      |>.and (form.required 2 "spec" text)
      |>.and (form.optional 3 "description" (nullable text) none)
      |>.and (form.optional 4 "repository" (nullable text) none)
      |>.and (form.optional 5 "dependencies" (list Dependency.read) [])
      |>.and (form.optional 6 "contact" (nullable text) none)
      |>.and (form.optional 7 "deployments" (nullable Deployments.read) none)

def Instruction.read : ValueReader Instruction :=
  readRecord "IdlInstruction" 6 fun form =>
    FieldResult.start Instruction.mk
      |>.and (form.required 0 "name" text)
      |>.and (form.optional 1 "docs" (list text) [])
      |>.and (form.optional 2 "discriminator" (list byte) [])
      |>.and (form.optional 3 "accounts" (list (ofShape AccountItem.read)) [])
      |>.and (form.optional 4 "args" (list Field.read) [])
      |>.and (form.optional 5 "returns" (nullable (ofShape Ty.read)) none)

/-- Accounts and events have one form; `record` is what messages call it. -/
def Entity.read (record : String) : ValueReader Entity :=
  readRecord record 2 fun form =>
    FieldResult.start Entity.mk
      |>.and (form.required 0 "name" text)
      |>.and (form.optional 1 "discriminator" (list byte) [])

def ErrorCode.read : ValueReader ErrorCode :=
  readRecord "IdlErrorCode" 3 fun form =>
    FieldResult.start ErrorCode.mk
      |>.and (form.required 0 "code" (natural "u32" (Nat.pow 2 32)))
      |>.and (form.required 1 "name" text)
      |>.and (form.optional 2 "msg" (nullable text) none)

def Constant.read : ValueReader Constant :=
  readRecord "IdlConst" 4 fun form =>
    FieldResult.start Constant.mk
      |>.and (form.required 0 "name" text)
      |>.and (form.optional 1 "docs" (list text) [])
      |>.and (form.required 2 "type" (ofShape Ty.read))
      |>.and (form.required 3 "value" text)

def Document.read : ValueReader Document :=
  readRecord "Idl" 9 fun form =>
    FieldResult.start Document.mk
      |>.and (form.optional 0 "address" (nullable text) none)
      |>.and (form.required 1 "metadata" Metadata.read)
      |>.and (form.optional 2 "docs" (list text) [])
      |>.and (form.optional 3 "instructions" (list Instruction.read) [])
      |>.and (form.optional 4 "accounts" (list (Entity.read "IdlAccount")) [])
      |>.and (form.optional 5 "events" (list (Entity.read "IdlEvent")) [])
      |>.and (form.optional 6 "errors" (list ErrorCode.read) [])
      |>.and (form.optional 7 "types" (list TypeDef.read) [])
      |>.and (form.optional 8 "constants" (list Constant.read) [])

end WireSchema.Schema
