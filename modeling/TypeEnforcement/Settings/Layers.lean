import TypeEnforcement.Settings.Plain
/-!
# Layers of settings

The settings of a project come from several sources, each laid over those before it: the defaults,
the document of the user, the one of the project, the personal overrides beside it, and the
environment. A source that is missing is left out.

A `Library` reads the sources and joins them (`Library.load`). What is decided here is which sources
there are, in which order they are added and what becomes of the result: it must pass its check.
-/

namespace TypeEnforcement.Settings

/-! ## Documents -/

/-- A document of settings, by where it lies. -/
inductive Layer where
  | user
  | project
  /-- Overrides of the project in one place, not shared with others. -/
  | personal
deriving DecidableEq, Repr

namespace Layer

/-- The name of the file of a layer. -/
def fileName : Layer → String
  | .user => "config.toml"
  | .project => "selforge.toml"
  | .personal => "selforge.local.toml"

/-- Where the file of a layer lies in a directory. -/
def pathIn (directory : String) (layer : Layer) : String :=
  if directory = "" ∨ Text.endsWith directory "/" then directory ++ layer.fileName
  else directory ++ "/" ++ layer.fileName

end Layer

/-- The sources of settings besides the defaults: documents where there are any, and variables of
the environment. -/
structure Sources where
  /-- Whether the document of the user counts. -/
  includesUser : Bool := true
  user : Option String := none
  project : Option String := none
  personal : Option String := none
  environment : List (String × String) := []
deriving DecidableEq, Repr

namespace Sources

/-- The document of a layer, if there is one and it counts. -/
def document? (sources : Sources) : Layer → Option String
  | .user => if sources.includesUser then sources.user else none
  | .project => sources.project
  | .personal => sources.personal

/-- The layers that have a document, each over those before it. -/
def layers (sources : Sources) : List Layer :=
  [Layer.user, .project, .personal].filter fun layer => (sources.document? layer).isSome

/-- The documents, each over those before it. -/
def documents (sources : Sources) : List String :=
  [Layer.user, .project, .personal].filterMap sources.document?

end Sources

/-! ## Loading -/

/-- Why settings cannot be loaded. -/
inductive LoadError where
  /-- The defaults are no source. -/
  | unwritable (text : String)
  /-- A source cannot be read. -/
  | unreadable
  /-- A value is missing or of the wrong kind. -/
  | unfit
  /-- The settings are faulty. -/
  | invalid (error : SettingsError)
deriving DecidableEq, Repr

namespace LoadError

/-- The words for a failure to load settings. -/
def message : LoadError → String
  | unwritable text => text
  | unreadable => "Failed to build configuration"
  | unfit => "Failed to deserialize configuration"
  | invalid _ => "Configuration failed validation"

/-- The words for what is behind the failure, if it is known. -/
def cause? : LoadError → Option String
  | invalid error => some error.message
  | _ => none

end LoadError

/-- The form of the variables of settings, as in `SELFORGE_MODULE__NAME`. -/
def variableForm : VariableForm where
  head := "SELFORGE"
  headSeparator := "_"
  separator := "__"
  parses := true

namespace Library

/-- The sources of settings besides the defaults, each over those before it. -/
def sourcesOf (library : Library) (sources : Sources) : List library.Source :=
  sources.documents.map library.file ++ [library.environment variableForm sources.environment]

/-- Loads settings from their sources and checks them. -/
def load (library : Library) (sources : Sources) : Except LoadError Settings := do
  let defaults ← (library.ofSettings {}).mapError .unwritable
  let document ← (library.build? (defaults :: library.sourcesOf sources)).elim
    (.error .unreadable) .ok
  let settings ← (library.deserialize? document).elim (.error .unfit) .ok
  settings.check.mapError .invalid
  return settings

end Library

/-- Loads settings from plain sources and checks them. -/
def load (sources : Sources) : Except LoadError Settings :=
  Library.plain.load sources

end TypeEnforcement.Settings
