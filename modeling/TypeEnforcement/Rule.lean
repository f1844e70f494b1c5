import TypeEnforcement.Object
/-!
# Rules

What the rows of a table say once they are read: rules, which allow or deny an action or change a
type, and roles, which give a member an attribute or declare a boolean. `RuleSet` holds all of one
table. A rule that changes a type carries a `TransitionClause`.
-/

namespace TypeEnforcement

/-! ## Parts of rules -/

/-- What a rule does with an action. -/
inductive Effect where
  | allow
  | deny
deriving DecidableEq, Repr

namespace Effect

/-- The word for an effect. -/
def word : Effect → String
  | allow => "allow"
  | deny => "deny"

/-- The effect of a word. -/
def ofWord? (text : String) : Option Effect :=
  [allow, deny].find? (·.word == text)

end Effect

/-- A guard of a rule: it holds while a boolean is on, or off if the guard is negated. -/
structure Condition where
  boolean : String
  negated : Bool
deriving DecidableEq, Repr

namespace Condition

/-- Conditions are ordered by their boolean; the plain one precedes the negated one. -/
instance : Ord Condition where
  compare := compareLex (compareOn (·.boolean)) (compareOn (·.negated))

/-- Reads `name` or `!name`. A blank text is no condition, and neither is a lone `!`. -/
def ofText? (text : String) : Option Condition :=
  match Text.trimChars text.toList with
  | [] => none
  | '!' :: rest =>
    if rest.all Text.isBlank then none
    else some { boolean := String.ofList (Text.trimChars rest), negated := true }
  | name => some { boolean := String.ofList name, negated := false }

/-- Writes a condition. -/
def text (condition : Condition) : String :=
  (if condition.negated then "!" else "") ++ condition.boolean

/-- Whether a condition holds when the booleans have these values. -/
def holds (values : String → Bool) (condition : Condition) : Bool :=
  values condition.boolean != condition.negated

end Condition

/-- Where the class of a rule comes from. -/
inductive ClassSource where
  /-- The class field of the row. -/
  | explicit
  /-- The action field, as in `read::dir`. -/
  | encoded
  /-- The shape of the object and the action. -/
  | inferred
deriving DecidableEq, Repr

/-- A change of type. For the process class the target is the entry point and the new type is the
domain that it enters; for other classes the target is the parent and the new type labels what is
created in it. -/
structure TransitionClause where
  sourceType : String
  targetType : String
  objectClass : String
  newType : String
deriving DecidableEq, Repr

namespace TransitionClause

/-- Whether a change of type is one of processes. -/
def isProcess (clause : TransitionClause) : Bool :=
  clause.objectClass == ObjectClass.process

end TransitionClause

/-! ## Rules and roles -/

/-- A rule of a table. -/
structure Rule where
  subject : String
  object : String
  objectRef : ObjectRef
  /-- The action without an encoded class. -/
  action : String
  objectClass : String
  classSource : ClassSource
  /-- The word for the effect; the new type where the rule changes a type. -/
  effect : String
  condition : Option Condition
  /-- Present where the rule changes a type. -/
  transition : Option TransitionClause
  line : Option Nat
deriving DecidableEq, Repr

/-- The place of a row as it ends a message; nothing where the line is not known. -/
def lineSuffix : Option Nat → String
  | some number => " (line " ++ toString number ++ ")"
  | none => ""

namespace Rule

/-- The effect of a rule on its action, if it has one. -/
def effect? (rule : Rule) : Option Effect :=
  match rule.transition with
  | some _ => none
  | none => Effect.ofWord? rule.effect

/-- A rule as messages name it. -/
def describe (rule : Rule) : String :=
  rule.subject ++ " " ++ rule.action ++ " " ++ rule.object ++ lineSuffix rule.line

end Rule

/-- A row on roles. -/
inductive Role where
  /-- The type of a member carries an attribute. -/
  | membership (member role : String)
  /-- A boolean and its default. -/
  | boolean (name : String) (default : Bool)
deriving DecidableEq, Repr

/-- The rules and the roles of a table, each in the order of their rows. -/
structure RuleSet where
  rules : List Rule
  roles : List Role
deriving DecidableEq, Repr

namespace RuleSet

/-- Whether a table says nothing. -/
def isEmpty (set : RuleSet) : Bool :=
  set.rules.isEmpty && set.roles.isEmpty

/-- The rules that allow or deny. -/
def policyRules (set : RuleSet) : List Rule :=
  set.rules.filter (·.transition.isNone)

/-- The rules that change a type, with what they change. -/
def transitions (set : RuleSet) : List (Rule × TransitionClause) :=
  set.rules.filterMap fun rule => rule.transition.map (rule, ·)

end RuleSet

end TypeEnforcement
