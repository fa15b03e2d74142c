/-!
# Trees of a settings file

Of a value this keeps what can matter to a reader of settings: texts, switches,
and that a place is taken. Of an array of tables it keeps the last table, the
only one that later lines can add to. Tables remember how they came about,
because that decides which lines may still extend them.
-/

namespace WireSchema.Toml

set_option autoImplicit false

/-- A value that later lines cannot extend. -/
inductive Leaf where
  | text (value : String)
  | switch (value : Bool)
  | other
deriving DecidableEq, Repr

/-- What stands under a key. An `implied` table was only named on the way to something in it; a `dotted`
one was named so by a dotted key. -/
inductive Node where
  | leaf (value : Leaf)
  | table (implied dotted : Bool) (entries : List (String × Node))
  | tables (last : List (String × Node))

abbrev Entries : Type := List (String × Node)

/-- Put a node under a key, in the place of what was there. -/
def Entries.replace (entries : Entries) (key : String) (node : Node) : Entries :=
  (key, node) :: entries.filter fun entry => entry.1 ≠ key

/-- Change the entries of a table that a header names. Tables on the way that do not exist yet come to be. -/
def changeAt (change : Entries → Option Entries) : List String → Entries → Option Entries
  | [], entries => change entries
  | key :: path, entries =>
    match entries.lookup key with
    | none => do return entries.replace key (.table true false (← changeAt change path []))
    | some (.table implied dotted inner) => do
      return entries.replace key (.table implied dotted (← changeAt change path inner))
    | some (.tables last) => do return entries.replace key (.tables (← changeAt change path last))
    | some (.leaf _) => none

/-- Open the table with a name: it must be new or only implied. -/
def openTable (key : String) (entries : Entries) : Option Entries :=
  match entries.lookup key with
  | none => some (entries.replace key (.table false false []))
  | some (.table true false inner) => some (entries.replace key (.table false false inner))
  | some _ => none

/-- Add a table to the array of tables with a name. -/
def addTable (key : String) (entries : Entries) : Option Entries :=
  match entries.lookup key with
  | none | some (.tables _) => some (entries.replace key (.tables []))
  | some _ => none

/-- Put a value under a key that must be free. -/
def addLeaf (key : String) (leaf : Leaf) (entries : Entries) : Option Entries :=
  match entries.lookup key with
  | none => some (entries.replace key (.leaf leaf))
  | some _ => none

/-- Put a value under a dotted key. The tables on the way must be implied, and the last one dotted. -/
def addDotted (key : String) (leaf : Leaf) : List String → Entries → Option Entries
  | [], entries => addLeaf key leaf entries
  | name :: path, entries =>
    match entries.lookup name with
    | none => do return entries.replace name (.table true true (← addDotted key leaf path []))
    | some (.table true dotted inner) =>
      if path = [] ∧ dotted = false then none
      else do return entries.replace name (.table true dotted (← addDotted key leaf path inner))
    | some (.tables last) =>
      if path = [] then none
      else do return entries.replace name (.tables (← addDotted key leaf path last))
    | some _ => none

/-- Put a value under a key of one or more parts. -/
def addValue (key : List String) (leaf : Leaf) (entries : Entries) : Option Entries :=
  match key.getLast? with
  | some last => addDotted last leaf key.dropLast entries
  | none => none

end WireSchema.Toml
