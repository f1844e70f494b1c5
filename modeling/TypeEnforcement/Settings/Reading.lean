import TypeEnforcement.Settings
import TypeEnforcement.Toml.Parser
/-!
# Settings from TOML values

A document of settings has a table for each part of them; keys that mean nothing here are passed
over, and a key that is missing leaves its default. A `Manner` says which values count as texts and
as booleans, and which may be passed over. Documents on their own are read strictly; values that are
joined from several sources are read leniently, since the environment knows nothing but text.

A table with a fixed set of keys may also be written as the array of its values in order; values
after the last key are not looked at.
-/

namespace TypeEnforcement.Settings

/-! ## Manners of reading -/

/-- Which values count as texts and as booleans, and which may stand at a key without a meaning. -/
structure Manner where
  text? : Toml.Value → Option String
  flag? : Toml.Value → Option Bool
  passes : Toml.Value → Bool

namespace Manner

/-- Only texts are texts and only booleans are booleans. An integer is passed over if a signed or an
unsigned one of 128 bits can hold it. -/
def strict : Manner where
  text?
    | .text s => some s
    | _ => none
  flag?
    | .boolean b => some b
    | _ => none
  passes := Toml.Value.isWithin (-Int.pow 2 127) (Int.pow 2 128)

/-- The boolean that a word stands for, in letters of either case. -/
def flagOfWord? (word : String) : Option Bool :=
  if ["true", "on", "yes", "1"].contains (Text.lowerCase word) then some true
  else if ["false", "off", "no", "0"].contains (Text.lowerCase word) then some false
  else none

/-- Integers and booleans are written out where a text is wanted; words and integers are booleans
where one is wanted, zero being false. Everything is passed over. -/
def lenient : Manner where
  text?
    | .text s => some s
    | .integer n => some (toString n)
    | .boolean b => some (toString b)
    | _ => none
  flag?
    | .boolean b => some b
    | .integer n => some (n != 0)
    | .text s => flagOfWord? s
    | _ => none
  passes := fun _ => true

end Manner

/-! ## Parts of settings -/

/-- The entries of a table whose keys are to be these. -/
def keyed? (manner : Manner) (keys : List String) (es : Toml.Entries) : Option Toml.Entries :=
  if es.all fun entry => keys.contains entry.1 || manner.passes entry.2 then some es else none

/-- The entries of a value that is such a table, or the array of its values. -/
def part? (manner : Manner) (keys : List String) : Toml.Value → Option Toml.Entries
  | .table es => keyed? manner keys es
  | .array vs => some (keys.zip vs)
  | _ => none

/-- Reads a value if it is there. -/
def withDefault {α : Type} (default : α) (read : Toml.Value → Option α) :
    Option Toml.Value → Option α
  | none => some default
  | some value => read value

/-- Reads the part of a document at a key; a part that is missing is empty. -/
def readPart (manner : Manner) (document : Toml.Entries) (key : String) (keys : List String) :
    Option Toml.Entries :=
  withDefault [] (part? manner keys) (document.lookup key)

/-- Reads each value of a table whose keys are free. -/
def readMap {α : Type} (read : Toml.Value → Option α) (value : Toml.Value) :
    Option (List (String × α)) :=
  match value with
  | .table es =>
    (es.mapM fun entry : String × Toml.Value => (read entry.2).map (entry.1, ·)).map
      Canonical.ofSettings
  | _ => none

/-- Reads an array of texts. -/
def readTexts (manner : Manner) : Toml.Value → Option (List String)
  | .array vs => vs.mapM manner.text?
  | _ => none

/-- Reads the meaning of an action. -/
def readMeaning (manner : Manner) (value : Toml.Value) : Option ActionMeaning := do
  let meaning ← part? manner ["class", "permissions"] value
  let objectClass ← manner.text? (← meaning.lookup "class")
  let permissions ← readTexts manner (← meaning.lookup "permissions")
  return { objectClass, permissions }

/-! ## Settings -/

/-- The parts of settings. -/
def partNames : List String :=
  ["module", "analyzer", "generator", "optimizer", "actions", "file_types"]

/-- Reads settings from a document. -/
def read (manner : Manner) (document : Toml.Entries) : Option Settings := do
  let base : Settings := {}
  let text := fun default => withDefault default manner.text?
  let flag := fun default => withDefault default manner.flag?
  let document ← keyed? manner partNames document
  let module ← readPart manner document "module" ["name", "version"]
  let moduleName ← text base.moduleName (module.lookup "name")
  let version ← text base.version (module.lookup "version")
  let analyzer ← readPart manner document "analyzer" ["extended_globs"]
  let extendedGlobs ← flag base.extendedGlobs (analyzer.lookup "extended_globs")
  let generator ← readPart manner document "generator" ["auto_transitions", "file_contexts"]
  let infersTransitions ← flag base.infersTransitions (generator.lookup "auto_transitions")
  let labelsFiles ← flag base.labelsFiles (generator.lookup "file_contexts")
  let optimizer ← readPart manner document "optimizer"
    ["enabled", "eliminate_redundant", "prune_unused_types"]
  let optimizes ← flag base.optimizes (optimizer.lookup "enabled")
  let eliminatesRedundant ← flag base.eliminatesRedundant (optimizer.lookup "eliminate_redundant")
  let prunesTypes ← flag base.prunesTypes (optimizer.lookup "prune_unused_types")
  let actions ← withDefault base.actions (readMap (readMeaning manner))
    (document.lookup "actions")
  let fileKinds ← withDefault base.fileKinds (readMap manner.text?)
    (document.lookup "file_types")
  return {
    moduleName, version, extendedGlobs, infersTransitions, labelsFiles, optimizes
    eliminatesRedundant, prunesTypes, actions, fileKinds }

/-- Reads the settings of one plain document, without checking them. -/
def ofToml? (text : String) : Option Settings :=
  (Toml.parse? text).bind (read .strict)

/-! ## Documents of settings -/

/-- The value of the meaning of an action. -/
def meaningValue (meaning : ActionMeaning) : Toml.Value :=
  .table (Canonical.ofSettings [("class", .text meaning.objectClass),
    ("permissions", .array (meaning.permissions.map .text))])

/-- The document of settings, which gives each of them. -/
def toEntries (settings : Settings) : Toml.Entries :=
  Canonical.ofSettings [
    ("module", .table [("name", .text settings.moduleName), ("version", .text settings.version)]),
    ("analyzer", .table [("extended_globs", .boolean settings.extendedGlobs)]),
    ("generator", .table [("auto_transitions", .boolean settings.infersTransitions),
      ("file_contexts", .boolean settings.labelsFiles)]),
    ("optimizer", .table [("eliminate_redundant", .boolean settings.eliminatesRedundant),
      ("enabled", .boolean settings.optimizes),
      ("prune_unused_types", .boolean settings.prunesTypes)]),
    ("actions", .table (Canonical.ofSettings (settings.actions.map fun (action, meaning) =>
      (action, meaningValue meaning)))),
    ("file_types", .table (Canonical.ofSettings (settings.fileKinds.map fun (path, kind) =>
      (path, .text kind))))]

end TypeEnforcement.Settings
