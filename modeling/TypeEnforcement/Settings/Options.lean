import TypeEnforcement.Compilation
import TypeEnforcement.Settings
/-!
# Options from settings

Settings that pass their check and name known kinds of files become the options of a compilation.
-/

namespace TypeEnforcement

/-- Why settings give no options. -/
inductive OptionsError where
  | settings (error : SettingsError)
  | unknownFileKind (path kind : String)
deriving DecidableEq, Repr

namespace OptionsError

/-- The words for settings that give no options. -/
def message : OptionsError → String
  | settings error => "invalid configuration: " ++ error.message
  | unknownFileKind path kind =>
    "invalid configuration: file_types.\"" ++ path ++ "\": unknown file type "
      ++ Text.quote kind

end OptionsError

namespace Options

/-- The kind that settings give to a path. -/
def fileKindOf (path kind : String) : Except OptionsError (String × FileKind) :=
  match FileKind.ofText? kind with
  | some found => .ok (path, found)
  | none => .error (.unknownFileKind path kind)

/-- The options of settings. -/
def ofSettings (settings : Settings) : Except OptionsError Options := do
  settings.check.mapError .settings
  let fileKindOverrides ← settings.fileKinds.mapM fun (path, kind) => fileKindOf path kind
  return {
    moduleName := settings.moduleName
    version := settings.version
    extendedGlobs := settings.extendedGlobs
    infersTransitions := settings.infersTransitions
    labelsFiles := settings.labelsFiles
    optimizes := settings.optimizes
    eliminatesRedundant := settings.eliminatesRedundant
    prunesTypes := settings.prunesTypes
    actionOverrides := settings.actions
    fileKindOverrides }

end Options

end TypeEnforcement
