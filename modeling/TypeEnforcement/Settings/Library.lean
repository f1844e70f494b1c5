import TypeEnforcement.Settings
import TypeEnforcement.Toml
/-!
# Libraries of settings

Reading documents, joining what they say and turning the result into settings is left to a library.
`Library` is what loading settings uses of one, with three functions more in whose terms a library
is described: what a source says, where a key leads, and what setting a value there does.

Which library it is does not matter here. `Library.plain` is one that runs.
-/

namespace TypeEnforcement.Settings

/-- How the name of a variable of the environment is made up: a head, then the keys that lead to a
setting, with separators between them. -/
structure VariableForm where
  head : String
  headSeparator : String
  separator : String
  /-- Whether a variable that is written like a boolean or a number is one. -/
  parses : Bool
deriving DecidableEq, Repr

/-- A library that reads sources of settings and joins them into one document. -/
structure Library where
  /-- Something that may give values to settings. -/
  Source : Type
  /-- The source that gives settings their values in these. -/
  ofSettings : Settings → Except String Source
  /-- The source that is a file with a text. -/
  file : (text : String) → Source
  /-- The source that is the environment, with variables of a form. -/
  environment : VariableForm → (bindings : List (String × String)) → Source
  /-- Joins sources, in the order in which they were added. -/
  build? : List Source → Option Toml.Value
  /-- Turns a document into settings. -/
  deserialize? : Toml.Value → Option Settings
  /-- What a source says: keys at the root of a document, and their values. -/
  collect? : Source → Option Toml.Entries
  /-- The steps to the place that a key at the root names. -/
  stepsOf : (key : String) → List Toml.Step
  /-- Sets a value at a place of a document. -/
  setAt : List Toml.Step → (value document : Toml.Value) → Toml.Value

end TypeEnforcement.Settings
