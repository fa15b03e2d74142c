import WireSchema.Codec.Size
import WireSchema.Program.Basic
import WireSchema.Schema.Account
import WireSchema.Settings.Basic

/-!
# Reports

What is shown of a program, of its layouts and of the problems of a document,
as lines of text.
-/

namespace WireSchema.CommandLine

set_option autoImplicit false

open Schema

/-- Lines as text, each with its end. -/
def ofLines (lines : List String) : String :=
  String.join (lines.map (· ++ "\n"))

/-- A text after as many blanks as make it `width` characters wide. -/
def alignRight (width : Nat) (text : String) : String :=
  String.ofList (List.replicate (width - text.length) ' ') ++ text

def header (title : String) : List String :=
  ["", title, String.ofList (List.replicate 50 '─')]

def subheader (title : String) : List String :=
  ["", title]

/-- What an account must be, in brackets. -/
def constraintsText (account : AccountSlot) : String :=
  let constraints := [("signer", account.signer), ("writable", account.writable),
    ("optional", account.optional)].filterMap fun (name, wanted) => if wanted then some name else none
  if constraints.isEmpty then "" else "[" ++ ", ".intercalate constraints ++ "]"

def instructionLines (i : Nat) (ix : Instruction) : List String :=
  let args := ix.args.map fun arg => s!"{arg.name}: {arg.ty.text}"
  let call := s!"  {alignRight 2 (toString (i + 1))}. {ix.name}(" ++ ", ".intercalate args ++ ")"
  call :: (flattenItems [] ix.accounts).map fun account =>
    s!"       {account.qualifiedName} {constraintsText account.account}"

/-- The report on a document that was accepted. -/
def overview (p : Program) : List String :=
  let doc := p.document
  let description := match doc.metadata.description with
    | some text => [s!"  Description: {text}"]
    | none => []
  let instructions := match doc.instructions with
    | [] => ["  (none)"]
    | list => (list.mapIdx instructionLines).flatten
  header s!"Program: {doc.metadata.name}"
    ++ [s!"  Version: {doc.metadata.version}", "  Address: " ++ doc.address.getD "-",
      s!"  Spec: {doc.metadata.spec}"]
    ++ description
    ++ subheader "Summary"
    ++ [s!"  {doc.instructions.length} Instructions, {doc.accounts.length} Accounts, "
      ++ s!"{doc.types.length} Types, {doc.events.length} Events, {doc.errors.length} Errors, "
      ++ s!"{p.layouts.length} Layouts"]
    ++ subheader s!"Instructions ({doc.instructions.length})"
    ++ instructions
    ++ ["", "  ✓ IDL is valid", ""]

def problemTitles : List String :=
  ["Not resolved types", "Duplicate type names", "Invalid type names", "Invalid discriminators",
    "Duplicate instruction names", "Missing types"]

/-- The report on a document that was refused. -/
def problemLines (problems : Problems) : List String :=
  let shown := (problemTitles.zip problems.sections).filter fun (_, entries) => !entries.isEmpty
  header s!"Validation failed ({problems.count} problem(s))"
    ++ shown.flatMap (fun (title, entries) => subheader title ++ entries.map ("  ✗ " ++ ·))
    ++ [""]

def discriminatorLine (discriminator : Discriminator) (name : String) : String :=
  s!"  {spacedHex discriminator.toList}  {name}"

def discriminatorLines (p : Program) : List String :=
  let dataLines (title : String) (entries : List DataEntry) : List String :=
    subheader s!"{title} ({entries.length})"
      ++ entries.map fun entry => discriminatorLine entry.discriminator entry.name
  header s!"Discriminators for {p.document.metadata.name}"
    ++ dataLines "Accounts" p.accounts
    ++ dataLines "Events" p.events
    ++ subheader s!"Instructions ({p.instructions.length})"
    ++ p.instructions.map (fun entry => discriminatorLine entry.discriminator entry.name)
    ++ [""]

def fieldLines (indent : String) (fields : List FieldCodec) : List String :=
  if fields.isEmpty then [indent ++ "(no fields)"]
  else fields.map fun field => s!"{indent}{field.name}: {field.codec.text}"

/-- A variant after its index. -/
def variantLine (i : Nat) (name : String) : String :=
  s!"  {alignRight 3 (toString i)} {name}"

def variantLines (i : Nat) (v : VariantCodec) : List String :=
  variantLine i v.name :: match v.fields with
    | some fields => fieldLines "        " fields
    | none => []

def bodyLines : Layout → List String
  | .struct fields => fieldLines "  " fields
  | .simpleEnum names => names.mapIdx variantLine
  | .complexEnum variants => (variants.mapIdx variantLines).flatten
  | .aliasOf codec => [s!"  = {codec.text}"]

def sizeText : Option Nat → String
  | some size => s!"{size} bytes"
  | none => "variable"

/-- All layouts, or only those that `shown` lets through. -/
def layoutLines (layouts : LayoutSet) (shown : String → Bool) : List String :=
  let entryLines : String × Layout → List String := fun (key, layout) =>
    subheader s!"{key} ({sizeText (layouts.fixedSize? (.defined key))})" ++ bodyLines layout
  header "Layouts" ++ (layouts.entries.filter fun entry => shown entry.1).flatMap entryLines ++ [""]

/-- How many names a report lists at most. -/
def listLimit : Nat := 10

/-- The names that there are, when a wanted one is not among them. -/
def availableLines (names : List String) : List String :=
  if names.isEmpty then []
  else
    ["", "Available types:"] ++ (names.take listLimit).map ("  - " ++ ·)
      ++ if listLimit < names.length then [s!"  (+{names.length - listLimit}) more..."] else []

/-- The report on settings and on the file that they are kept in. -/
def settingsLines (path : String) (found : Bool) (settings : Settings) : List String :=
  let origin := if found then "yes" else "no (using defaults)"
  ["", "idl-codec Configuration:", s!"  Config file: {path}", s!"  File exists: {origin}", "",
    s!"  log_level:   {settings.logLevel}", s!"  color:       {settings.color}",
    "  default_idl: " ++ settings.defaultIdl.getD "-", ""]

end WireSchema.CommandLine
