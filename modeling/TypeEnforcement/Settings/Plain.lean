import TypeEnforcement.Settings.Library
import TypeEnforcement.Settings.Place
import TypeEnforcement.Settings.Reading
/-!
# The plain library

`Library.plain` reads plain documents, those that `Toml.parse?` reads, and plain variables: texts,
booleans and integers. What is not plain it refuses, such as a float, a date or a string over
several lines.

Tables are joined key by key, so a source may give one key of a table and leave the others; any
other value takes the place of what was there. A key at the root of a source may itself be a path,
which is how the environment reaches into tables.
-/

namespace TypeEnforcement.Settings

/-! ## Variables -/

/-- A text with each occurrence of a separator replaced by a point, from the left. The first
characters may belong to an occurrence before them and are skipped. -/
def pointed (separator : List Char) : (skipped : Nat) → List Char → List Char
  | _, [] => []
  | skipped + 1, _ :: cs => pointed separator skipped cs
  | 0, c :: cs =>
    if !separator.isEmpty && (Text.stripHead? separator (c :: cs)).isSome then
      '.' :: pointed separator (separator.length - 1) cs
    else c :: pointed separator 0 cs

/-- The key that a variable of the environment sets, if it has the form. -/
def VariableForm.keyOf? (form : VariableForm) (name : String) : Option String :=
  let head := Text.lowerCase (form.head ++ form.headSeparator)
  (Text.stripHead? head.toList (Text.lowerCase name).toList).map fun rest =>
    String.ofList (pointed form.separator.toList 0 rest)

/-- The integer that a text writes, where a plus sign may stand before it. -/
def signed? (cs : List Char) : Option Int :=
  match cs with
  | '+' :: digits => (natural? digits).filter (· < integerLimit)
  | cs => integer? cs

/-- A number without the sign before it, if it has one. -/
def unsigned (cs : List Char) : List Char :=
  match cs with
  | '+' :: digits | '-' :: digits => digits
  | cs => cs

/-- Whether a text in lower case without a sign writes a float: digits that may have a point among
them and an exponent after them, or one of the words for what is no number. -/
def isFloat (cs : List Char) : Bool :=
  ["inf", "infinity", "nan"].contains (String.ofList cs) ||
    match Text.splitWhere (· == 'e') cs with
    | [digits] => isMantissa digits
    | [digits, exponent] => isMantissa digits && (natural? (unsigned exponent)).isSome
    | _ => false
where
  /-- Whether digits have at most one point among them. -/
  isMantissa (cs : List Char) : Bool :=
    match Text.splitWhere (· == '.') cs with
    | [whole] => (natural? whole).isSome
    | [whole, fraction] => (natural? (whole ++ fraction)).isSome
    | _ => false

/-- The value of a variable: a boolean or an integer if it is written like one, else its text. A
float is no plain value. -/
def valueOfVariable? (text : String) : Option Toml.Value :=
  match Text.lowerCase text with
  | "true" => some (.boolean true)
  | "false" => some (.boolean false)
  | lower =>
    match signed? text.toList with
    | some n => some (.integer n)
    | none => if isFloat (unsigned lower.toList) then none else some (.text text)

/-- What a variable says about settings, if it has the form. -/
def VariableForm.read? (form : VariableForm) (key text : String) : Option (String × Toml.Value) :=
  if form.parses then (valueOfVariable? text).map (key, ·) else some (key, .text text)

/-- What the environment says about settings. -/
def environmentEntries? (form : VariableForm) (bindings : List (String × String)) :
    Option Toml.Entries :=
  (bindings.filterMap fun (name, text) => (form.keyOf? name).map (·, text)).mapM
    fun (key, text) => form.read? key text

/-! ## Files -/

/-- Reads the file of a layer, whose integers must be in range. The file may have a byte order mark
besides the one of its document. -/
def readFile? (text : String) : Option Toml.Entries :=
  (Toml.parse? (Text.withoutMark text)).filter
    (Toml.Value.entriesWithin leastInteger integerLimit)

/-! ## The library -/

/-- A source of plain settings. -/
inductive PlainSource where
  | settings (settings : Settings)
  | file (text : String)
  | environment (form : VariableForm) (bindings : List (String × String))
deriving DecidableEq, Repr

namespace PlainSource

/-- What a source says. -/
def collect? : PlainSource → Option Toml.Entries
  | settings given => some (toEntries given)
  | file text => readFile? text
  | environment form bindings => environmentEntries? form bindings

end PlainSource

/-- Lays the entries of a source over a document. -/
def join (document : Toml.Value) (source : Toml.Entries) : Toml.Value :=
  source.foldl (fun document (key, value) => value.overlayAt (placeOf key) document) document

/-- The library of plain documents and variables. -/
def Library.plain : Library where
  Source := PlainSource
  ofSettings settings := .ok (.settings settings)
  file := .file
  environment := .environment
  build? sources :=
    sources.foldlM (fun document source => source.collect?.map (join document)) (.table [])
  deserialize? document := read .lenient document.entries
  collect? := PlainSource.collect?
  stepsOf := placeOf
  setAt steps value document := value.overlayAt steps document

end TypeEnforcement.Settings
