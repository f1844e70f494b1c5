import TypeEnforcement.Action
import TypeEnforcement.Row
import TypeEnforcement.Rule
/-!
# From rows to rules

`RowError` lists what is wrong with a row as a row: no tag, an unknown tag, a field too many or too
few, a transition row with another action. Everything else a row says is kept as it is and judged
later, so a boolean that is misspelled becomes an attribute of that name.
-/

namespace TypeEnforcement

/-! ## Errors -/

/-- What is wrong with a row. -/
inductive RowError where
  | noTag (line : Option Nat)
  | unknownTag (tag : String) (line : Option Nat)
  | fieldCount (kind : RowKind) (found : Nat) (line : Option Nat)
  | notTransition (action : String) (line : Option Nat)
deriving DecidableEq, Repr

/-- The action of a row that changes a type. -/
def transitionAction : String := "transition"

namespace RowError

/-- The words for a faulty row. -/
def message : RowError → String
  | noTag line => "empty rule row" ++ lineSuffix line
  | unknownTag tag line => "unknown row tag " ++ Text.quote tag ++ lineSuffix line
  | fieldCount kind found line =>
    Text.quote kind.tag ++ " row expects " ++ kind.fieldCountsText ++ " fields, found "
      ++ toString found ++ lineSuffix line
  | notTransition action line =>
    "invalid transition row: action must be " ++ Text.quote transitionAction ++ ", found "
      ++ Text.quote action ++ lineSuffix line

end RowError

/-! ## Actions and classes -/

namespace Action

/-- Cuts `action::class` at the first separator. A blank class counts as none; an action without
a separator is not trimmed. -/
def split (action : String) : String × Option String :=
  match Text.cutAt? [':', ':'] action.toList with
  | none => (action, none)
  | some (name, objectClass) =>
    (String.ofList (Text.trimChars name),
      if objectClass.all Text.isBlank then none
      else some (String.ofList (Text.trimChars objectClass)))

end Action

namespace ObjectRef

/-- The class of an object under an action. A path is a directory if it ends in a separator or the
action works on directories, else a file. A port without a protocol takes the action's class of
sockets. A token takes the action's class. -/
def inferClass (object : ObjectRef) (action : String) : String :=
  match object with
  | path p =>
    if Text.endsWith p "/" || Action.defaultClass? action == some ObjectClass.directory then
      ObjectClass.directory
    else ObjectClass.file
  | network protocol _ => protocol.socketClass
  | port _ =>
    ((Action.defaultClass? action).filter (Text.endsWith · "_socket")).getD
      Protocol.tcp.socketClass
  | token _ => (Action.defaultClass? action).getD ObjectClass.file

end ObjectRef

/-! ## Rows -/

namespace Rule

/-- The class of an allow or deny rule and its source: the class encoded in the action, else the
class field, else the inferred one. -/
def classOf (object : ObjectRef) (action : String) (encoded : Option String)
    (classField : String) : String × ClassSource :=
  match encoded with
  | some objectClass => (objectClass, .encoded)
  | none =>
    if classField = "" then (object.inferClass action, .inferred) else (classField, .explicit)

/-- The rule of a policy row. -/
def ofPolicyFields (subject object action classField effect condition : String)
    (line : Option Nat) : Rule :=
  let name := (Action.split action).1
  let objectRef := ObjectRef.ofText object
  let found := classOf objectRef name (Action.split action).2 classField
  { subject, object, objectRef, action := name, objectClass := found.1, classSource := found.2
    effect, condition := Condition.ofText? condition, transition := none, line }

/-- The rule of a transition row, on processes unless the action encodes another class. -/
def ofTransitionFields (subject object action newType condition : String) (line : Option Nat) :
    Except RowError Rule :=
  let name := (Action.split action).1
  if name ≠ transitionAction then .error (.notTransition name line)
  else
    let encoded := (Action.split action).2
    let objectClass := encoded.getD ObjectClass.process
    .ok {
      subject, object, objectRef := ObjectRef.ofText object, action := name, objectClass
      classSource := if encoded.isSome then .encoded else .inferred
      effect := newType, condition := Condition.ofText? condition
      transition := some { sourceType := subject, targetType := object, objectClass, newType }
      line }

end Rule

namespace Role

/-- A boolean of this name and default, if both are well spelled. -/
def boolean? (name value : String) : Option Role :=
  let name := Text.trim name
  if name = "" ∨ ¬ name.toList.all Text.isNameChar then none
  else
    match Text.lowerCase (Text.trim value) with
    | "true" => some (.boolean name true)
    | "false" => some (.boolean name false)
    | _ => none

/-- The role of a row: `bool:name` with its default as the role, or `name:default`, declares a
boolean; anything else is an attribute. -/
def ofFields (member role : String) : Role :=
  let boolean :=
    match Text.stripHead? "bool:".toList member.toList with
    | some name => boolean? (String.ofList name) role
    | none =>
      (Text.cutAt? [':'] member.toList).bind fun (name, value) =>
        boolean? (String.ofList name) (String.ofList value)
  boolean.getD (.membership member role)

end Role

/-- What one row says. -/
inductive Statement where
  | rule (rule : Rule)
  | role (role : Role)
deriving DecidableEq, Repr

namespace Statement

/-- Reads the fields of a row of a kind. -/
def ofFields (kind : RowKind) (fields : List String) (line : Option Nat) :
    Except RowError Statement :=
  match kind, fields with
  | .policy, [subject, object, action, effect] =>
    .ok (.rule (.ofPolicyFields subject object action "" effect "" line))
  | .policy, [subject, object, action, objectClass, effect] =>
    .ok (.rule (.ofPolicyFields subject object action objectClass effect "" line))
  | .policy, [subject, object, action, objectClass, effect, condition] =>
    .ok (.rule (.ofPolicyFields subject object action objectClass effect condition line))
  | .transition, [subject, object, action, newType] =>
    (Rule.ofTransitionFields subject object action newType "" line).map .rule
  | .transition, [subject, object, action, newType, condition] =>
    (Rule.ofTransitionFields subject object action newType condition line).map .rule
  | .role, [member, name] => .ok (.role (.ofFields member name))
  | kind, fields => .error (.fieldCount kind fields.length line)

/-- Reads a row. -/
def ofRow (row : Row) : Except RowError Statement :=
  if row.tag = "" then .error (.noTag row.line)
  else
    match RowKind.ofTag? row.tag with
    | none => .error (.unknownTag row.tag row.line)
    | some kind => ofFields kind row.fields row.line

/-- The rule of a statement, if it is one. -/
def rule? : Statement → Option Rule
  | .rule r => some r
  | .role _ => none

/-- The role of a statement, if it is one. -/
def role? : Statement → Option Role
  | .rule _ => none
  | .role r => some r

end Statement

namespace RuleSet

/-- What a list of statements says. -/
def ofStatements (statements : List Statement) : RuleSet :=
  { rules := statements.filterMap Statement.rule?, roles := statements.filterMap Statement.role? }

/-- Reads a list of rows; the first faulty row is the error. -/
def ofRows (rows : List Row) : Except RowError RuleSet :=
  (rows.mapM Statement.ofRow).map ofStatements

end RuleSet

end TypeEnforcement
