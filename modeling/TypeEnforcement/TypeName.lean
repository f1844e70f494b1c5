import TypeEnforcement.Canonical
import TypeEnforcement.Text
/-!
# Names of types

Types of paths and ports are named within the scope of a module, so that the names of two modules
do not meet. A name is made of the words of a path, which are what stands between its separators,
dashes, dots and underscores; hence two spellings of one directory have one name. Only the literal
part of a glob counts.
-/

namespace TypeEnforcement.TypeName

/-- How type names end. -/
def ending : String := "_t"

/-- Ends a name as type names do. -/
def ensureEnding (name : String) : String :=
  if Text.endsWith name ending then name else name ++ ending

/-! ## Words -/

/-- The characters between words. -/
def isSeparator (c : Char) : Bool :=
  c == '/' || c == '-' || c == '.' || c == '_'

/-- The words of a text: what stands between separators, where anything does. -/
def words (cs : List Char) : List (List Char) :=
  (Text.splitWhere isSeparator cs).filter (· ≠ [])

/-- The words of a text with an underscore between each two. -/
def sanitize (s : String) : String :=
  String.ofList (['_'].intercalate (words s.toList))

/-! ## Paths -/

/-- The characters that end the literal part of a glob. -/
def isGlobChar (c : Char) : Bool :=
  c == '*' || c == '?' || c == '[' || c == '{'

/-- A text up to its last separator; empty if it has none. -/
def throughLastSlash (cs : List Char) : List Char :=
  (cs.reverse.dropWhile (· != '/')).reverse

/-- The literal part of a glob: up to the last separator before its first wildcard, and the whole
of a path without one. -/
def literalBase (path : List Char) : List Char :=
  if path.any isGlobChar then throughLastSlash (path.takeWhile (! isGlobChar ·)) else path

/-- The scope of a module: its name as it begins type names. -/
structure Scope where
  stem : String
deriving DecidableEq, Repr

namespace Scope

/-- The scope of a module. -/
def ofModule (name : String) : Scope :=
  { stem := sanitize name }

/-- A name within a scope, which is not repeated if the name begins with it. -/
def qualify (scope : Scope) (name : String) : String :=
  if scope.stem = "" ∨ name = scope.stem ∨ Text.startsWith name (scope.stem ++ "_") then name
  else scope.stem ++ "_" ++ name

/-- The type of the files of a path. -/
def pathType (scope : Scope) (path : String) : String :=
  let stem := sanitize (String.ofList (literalBase path.toList))
  ensureEnding (scope.qualify (if stem = "" then "root" else stem))

/-- The type of a port. -/
def portType (scope : Scope) (port : String) : String :=
  (if scope.stem = "" then "" else scope.stem ++ "_") ++ "port_" ++ port ++ ending

end Scope

/-! ## Attributes -/

/-- The attribute of domains. -/
def domainAttribute : String := "domain"

/-- The attribute of the types of programs. -/
def programAttribute : String := "exec_type"

/-- The attribute of the types of files that are no programs. -/
def fileAttribute : String := "file_type"

/-- The attribute of the types of ports. -/
def portAttribute : String := "port_type"

/-- How the names of the types of programs end. -/
def programEndings : List String :=
  ["_exec_t", "_bin_t", "_cmd_t", "_program_t"]

/-- Whether the name of a type is one of a program. -/
def isProgram (name : String) : Bool :=
  programEndings.any (Text.endsWith name)

/-- An attribute that paths of some kind get. -/
structure AttributeRule where
  name : String
  parts : List String
  endings : List String
deriving DecidableEq, Repr

/-- The attributes by what a path contains and how it ends. -/
def attributeRules : List AttributeRule := [
  ⟨"lib_type", ["/lib"], []⟩,
  ⟨"logfile", ["/var/log"], [".log"]⟩,
  ⟨"configfile", ["/etc"], [".conf", ".cfg"]⟩,
  ⟨"pidfile", ["/var/run", "/run"], []⟩,
  ⟨"tmpfile", ["/tmp", "/var/tmp"], []⟩,
  ⟨"httpdcontent", ["/var/www", "/srv"], []⟩]

/-- Whether a path gets the attribute of a rule. -/
def AttributeRule.applies (rule : AttributeRule) (path : String) : Bool :=
  rule.parts.any (Text.hasPart path) || rule.endings.any (Text.endsWith path)

/-- Whether a path lies in a directory of programs. -/
def isProgramPath (path : String) : Bool :=
  Text.hasPart path "/bin" || Text.hasPart path "/sbin"

/-- The attributes of the type of a path. -/
def pathAttributes (path : String) : List String :=
  Canonical.ofList
    ((if isProgramPath path then programAttribute else fileAttribute)
      :: (attributeRules.filter (·.applies path)).map (·.name))

end TypeEnforcement.TypeName
