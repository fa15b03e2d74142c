import WireSchema.Text.Pieces
import WireSchema.Unicode.Alphanumeric
import WireSchema.Unicode.Case

/-!
# Words of an identifier

A name is cut at every character that is neither letter nor digit. A run that
remains is cut again before an upper case character that follows a lower case
one, and before the last capital of a row of capitals when a lower case
character comes next, so `XMLHttpRequest` has the words `XML`, `Http`, `Request`.

The two spellings of a name below use the same words. They agree with each
other only as far as the case mappings of Unicode do.
-/

namespace WireSchema.Text

set_option autoImplicit false

open Unicode

/-- The case of the last cased character of the current word. -/
inductive WordMode where
  | boundary
  | lower
  | upper
deriving DecidableEq, Repr

/-- The mode after one more character. -/
def WordMode.after (mode : WordMode) (c : Char) : WordMode :=
  if isLowercase c then .lower else if isUppercase c then .upper else mode

/-- The maximal stretches without a separator, empty ones included. -/
def runs (name : List Char) : List (List Char) :=
  pieces (fun c => !isAlphanumeric c) name

/-- Cut one run into words. `word` is the part of the current word already read, last character first. -/
def cutRun (mode : WordMode) (word : List Char) : List Char → List (List Char)
  | [] => []
  | [c] => [(c :: word).reverse]
  | c :: next :: rest =>
    if mode.after c = .lower ∧ isUppercase next = true then
      (c :: word).reverse :: cutRun .boundary [] (next :: rest)
    else if mode = .upper ∧ isUppercase c = true ∧ isLowercase next = true then
      word.reverse :: cutRun .boundary [c] (next :: rest)
    else cutRun (mode.after c) (c :: word) (next :: rest)

/-- The words of a name, in order. -/
def words (name : List Char) : List (List Char) :=
  (runs name).flatMap (cutRun .boundary [])

/-- The words in lower case, joined by underscores. -/
def snakeCase (name : String) : String :=
  "_".intercalate ((words name.toList).map fun word => String.ofList (word.flatMap toLowercase))

/-- Lower case for the tail of a word; a capital sigma at its end takes the final form. -/
def lowerTail : List Char → List Char
  | [] => []
  | ['Σ'] => ['ς']
  | c :: rest => toLowercase c ++ lowerTail rest

/-- A word with its first character in upper case and the others in lower case. -/
def capitalize : List Char → List Char
  | [] => []
  | c :: rest => toUppercase c ++ lowerTail rest

/-- The capitalized words without anything between them. -/
def upperCamelCase (name : String) : String :=
  String.ofList ((words name.toList).flatMap capitalize)

example : snakeCase "XMLHttpRequest" = "xml_http_request" := by decide +kernel
example : upperCamelCase "initialize_pool" = "InitializePool" := by decide +kernel

end WireSchema.Text
