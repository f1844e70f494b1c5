import TypeEnforcement.Action
/-!
# Settings

What a project may set about its compilations: the module, the spelling of objects, what is
generated, whether the result is optimized, and its own actions and kinds of files. Every setting
has a default but the parts of an action, which must both be given.

`Settings.check` refuses what the types of the settings cannot rule out.
-/

namespace TypeEnforcement

/-- The settings of a project. -/
structure Settings where
  moduleName : String := "local"
  version : String := "1.0.0"
  extendedGlobs : Bool := false
  infersTransitions : Bool := true
  labelsFiles : Bool := true
  optimizes : Bool := true
  eliminatesRedundant : Bool := true
  prunesTypes : Bool := true
  /-- The meanings given to actions, by action in order. -/
  actions : List (String × ActionMeaning) := []
  /-- The words for the kinds given to paths, by path in order. -/
  fileKinds : List (String × String) := []
deriving DecidableEq, Repr

/-- What is wrong with settings. -/
inductive SettingsError where
  | emptyModuleName
  | emptyClass (action : String)
  | noPermissions (action : String)
deriving DecidableEq, Repr

namespace SettingsError

/-- The setting that is empty. -/
def subject : SettingsError → String
  | emptyModuleName => "module.name"
  | emptyClass action => "actions." ++ action ++ ".class"
  | noPermissions action => "actions." ++ action ++ ".permissions"

/-- The words for faulty settings. -/
def message (error : SettingsError) : String :=
  "Invalid configuration: " ++ error.subject ++ " must not be empty"

end SettingsError

namespace Settings

/-- The settings that leave a policy as it is generated. -/
def unoptimized : Settings :=
  { optimizes := false }

/-- Checks one action. -/
def checkAction (action : String) (meaning : ActionMeaning) : Except SettingsError Unit :=
  if Text.allBlank meaning.objectClass then .error (.emptyClass action)
  else if meaning.permissions.isEmpty then .error (.noPermissions action)
  else .ok ()

/-- Checks settings: the name of the module, then the actions in order. -/
def check (settings : Settings) : Except SettingsError Unit :=
  if Text.allBlank settings.moduleName then .error .emptyModuleName
  else settings.actions.forM fun (action, meaning) => checkAction action meaning

end Settings

end TypeEnforcement
