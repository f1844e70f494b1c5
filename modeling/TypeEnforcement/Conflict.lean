import TypeEnforcement.Canonical
import TypeEnforcement.Rule
/-!
# Conflicts between rules

An allow rule and a deny rule conflict if subject, action and class agree and their objects seem to
overlap. The test on objects looks at their spelling only: it may miss an overlap and may report
one that is none, so a conflict is an advice and no error.

`Conflict.detect` reports each conflicting pair once: by subject in order, then by the place of the
allow rule, then by the place of the deny rule.
-/

namespace TypeEnforcement

/-! ## Overlap of objects -/

/-- Why two objects seem to overlap. -/
inductive Overlap where
  /-- They are the same. -/
  | identical (object : String)
  /-- The first ends in a wildcard, and the second starts with what precedes it. -/
  | covers (wide narrow : String)
  /-- They lie in one directory and one of them has a wildcard. -/
  | sharedDirectory (first second directory : String)
deriving DecidableEq, Repr

namespace Overlap

/-- The words for an overlap. -/
def text : Overlap → String
  | identical object => "identical object " ++ Text.quote object
  | covers wide narrow => Text.quote wide ++ " covers " ++ Text.quote narrow
  | sharedDirectory first second directory =>
    Text.quote first ++ " and " ++ Text.quote second ++ " share directory "
      ++ Text.quote directory ++ " and one is a wildcard"

end Overlap

namespace Object

/-- An object without the stars at its end. -/
def withoutStars (object : List Char) : List Char :=
  (object.reverse.dropWhile (· == '*')).reverse

/-- Whether an object ends in a star and another starts with what precedes its last stars. -/
def isCover (wide narrow : List Char) : Bool :=
  wide.getLast? == some '*' && (Text.stripHead? (withoutStars wide) narrow).isSome

/-- What precedes the last separator of an object that has one. -/
def directory? (object : List Char) : Option (List Char) :=
  match object.reverse.dropWhile (· != '/') with
  | [] => none
  | _ :: before => some before.reverse

/-- Whether an object has a wildcard. -/
def hasWildcard (object : List Char) : Bool :=
  object.any fun c => c == '*' || c == '?'

/-- The overlap of two objects, if they seem to overlap. -/
def overlap? (a b : String) : Option Overlap :=
  if a = b then some (.identical a)
  else if isCover a.toList b.toList then some (.covers a b)
  else if isCover b.toList a.toList then some (.covers b a)
  else
    match directory? a.toList, directory? b.toList with
    | some d, some e =>
      if d = e ∧ (hasWildcard a.toList || hasWildcard b.toList) then
        some (.sharedDirectory a b (String.ofList d))
      else none
    | _, _ => none

end Object

/-! ## Conflicts -/

/-- An allow rule and a deny rule on objects that seem to overlap. -/
structure Conflict where
  allowRule : Rule
  denyRule : Rule
  overlap : Overlap
deriving DecidableEq, Repr

namespace Conflict

/-- The rules of a subject with an effect. -/
def rulesOf (rules : List Rule) (subject : String) (effect : Effect) : List Rule :=
  rules.filter fun rule => rule.subject == subject && rule.effect? == some effect

/-- The conflict of two rules of one subject, if there is one. -/
def between? (allowRule denyRule : Rule) : Option Conflict :=
  if allowRule.action = denyRule.action ∧ allowRule.objectClass = denyRule.objectClass then
    (Object.overlap? allowRule.object denyRule.object).map fun overlap =>
      { allowRule, denyRule, overlap }
  else none

/-- The conflicts among the rules of a subject. -/
def detectFor (rules : List Rule) (subject : String) : List Conflict :=
  (rulesOf rules subject .allow).flatMap fun allowRule =>
    (rulesOf rules subject .deny).filterMap (between? allowRule)

/-- The conflicts among rules. -/
def detect (rules : List Rule) : List Conflict :=
  (Canonical.ofList (rules.map (·.subject))).flatMap (detectFor rules)

end Conflict

end TypeEnforcement
