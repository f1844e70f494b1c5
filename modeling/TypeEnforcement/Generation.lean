import TypeEnforcement.Action
import TypeEnforcement.Glob
import TypeEnforcement.Transition.Cycle
import TypeEnforcement.Transition.Inference
/-!
# Generation of a policy

Each allow rule, each role and each change of type of a table contributes a `Fragment` of a policy.
The fragments are laid end to end, domain transitions are inferred from the whole, and
`Fragment.toPolicy` makes a policy of it: one declaration for each type, in the order in which the
types first occur, and one block of rules for each condition. Rules that deny contribute nothing.

Fragments depend on their own rule only, and on the attributes that the roles of the table
introduce, so what a policy allows is the union of what its rules say.
-/

namespace TypeEnforcement

/-! ## Fragments -/

/-- A part of a policy, before declarations of one type are united. -/
structure Fragment where
  types : List TypeDecl := []
  rules : List GuardedRule := []
  typeTransitions : List TypeTransition := []
  fileContexts : List FileContext := []
  capabilities : List CapabilityGrant := []
  portBindings : List PortBinding := []
  booleans : List BooleanDecl := []
  /-- Changes of the domain of a process, from which domain transitions are inferred. -/
  declared : List DeclaredTransition := []
deriving DecidableEq, Repr

namespace Fragment

/-- Fragments laid end to end. -/
def concat (fragments : List Fragment) : Fragment where
  types := fragments.flatMap (·.types)
  rules := fragments.flatMap (·.rules)
  typeTransitions := fragments.flatMap (·.typeTransitions)
  fileContexts := fragments.flatMap (·.fileContexts)
  capabilities := fragments.flatMap (·.capabilities)
  portBindings := fragments.flatMap (·.portBindings)
  booleans := fragments.flatMap (·.booleans)
  declared := fragments.flatMap (·.declared)

/-! ## Making a policy -/

/-- One declaration for each type, in the order in which the types first occur. -/
def uniteTypes (decls : List TypeDecl) : List TypeDecl :=
  (Canonical.distinct (decls.map (·.name))).map fun name =>
    TypeDecl.union name (TypeDecl.named name decls)

/-- The rules that have a permission; a rule without one allows nothing and is left out. -/
def effective (rules : List GuardedRule) : List GuardedRule :=
  rules.filter fun guarded => !guarded.rule.permissions.isEmpty

/-- The rules without a condition. -/
def unconditional (rules : List GuardedRule) : List AllowRule :=
  rules.filterMap fun guarded => if guarded.condition.isNone then some guarded.rule else none

/-- The conditions of rules, as a canonical list. -/
def conditions (rules : List GuardedRule) : List Condition :=
  Canonical.ofList (rules.filterMap (·.condition))

/-- The rules with a condition. -/
def under (condition : Condition) (rules : List GuardedRule) : List AllowRule :=
  rules.filterMap fun guarded =>
    if guarded.condition = some condition then some guarded.rule else none

/-- A block for each condition. -/
def blocks (rules : List GuardedRule) : List ConditionalBlock :=
  (conditions rules).map fun condition => { condition, rules := under condition rules }

/-- The default of a boolean: the last one declared. A boolean that only conditions mention is
off. -/
def defaultOf (decls : List BooleanDecl) (name : String) : Bool :=
  ((decls.reverse.find? (·.name == name)).map (·.default)).getD false

/-- A declaration for each boolean that is declared or mentioned. -/
def uniteBooleans (decls : List BooleanDecl) (mentioned : List Condition) : List BooleanDecl :=
  (Canonical.ofList (decls.map (·.name) ++ mentioned.map (·.boolean))).map fun name =>
    { name, default := defaultOf decls name }

/-- The policy of a fragment and of what is inferred from it. -/
def toPolicy (fragment : Fragment) (inference : Inference) (moduleName version : String) :
    Policy where
  moduleName
  version
  types := uniteTypes fragment.types
  allowRules := unconditional (effective (fragment.rules ++ inference.rules))
  typeTransitions := fragment.typeTransitions
  fileContexts := fragment.fileContexts
  capabilities := fragment.capabilities
  portBindings := fragment.portBindings
  booleans := uniteBooleans fragment.booleans
    (conditions (effective (fragment.rules ++ inference.rules)))
  conditionals := blocks (effective (fragment.rules ++ inference.rules))
  domainTransitions := inference.transitions

end Fragment

/-! ## Fragments of rules and roles -/

/-- How a policy is generated. -/
structure Generator where
  moduleName : String
  version : String
  actions : ActionTable
  fileKinds : FileKindTable
  /-- Whether domain transitions are inferred. -/
  infersTransitions : Bool
  /-- Whether paths get file contexts. -/
  labelsFiles : Bool
deriving DecidableEq, Repr

namespace Generator

/-- The scope of the names of types. -/
def scope (generator : Generator) : TypeName.Scope :=
  .ofModule generator.moduleName

/-- What a path of a rule declares: its type, and a file context if files are labelled. -/
def pathFragment (generator : Generator) (path : String) (rule : Rule) : Fragment where
  types := [{
    name := generator.scope.pathType path
    attributes := TypeName.pathAttributes path
    comment := some ("files matching " ++ path) }]
  fileContexts :=
    if generator.labelsFiles then [{
      pattern := Glob.pattern path
      kind := generator.fileKinds.kindOf path
      targetType := generator.scope.pathType path
      comment := some rule.describe }]
    else []

/-- What a port declares. -/
def portFragment (generator : Generator) (protocol : Protocol) (port : String) : Fragment where
  types := [.of (generator.scope.portType port) [TypeName.portAttribute] none]
  portBindings := [{ protocol, port, typeName := generator.scope.portType port }]

/-- The attributes of a type that a token names, by the class of the rule and its own name. -/
def tokenAttributes (token objectClass : String) : List String :=
  if objectClass = ObjectClass.process then [TypeName.domainAttribute]
  else if TypeName.isProgram token then [TypeName.programAttribute]
  else if ObjectClass.isFileLike objectClass then [TypeName.fileAttribute]
  else []

/-- What a token declares: a type, if it is named like one and is not an attribute of some role. -/
def tokenFragment (roleAttributes : List String) (token objectClass : String) : Fragment where
  types :=
    if token = AllowRule.selfTarget ∨ token ∈ roleAttributes
      ∨ ¬ Text.endsWith token TypeName.ending then []
    else [.of token (tokenAttributes token objectClass) none]

/-- The target type of an allow rule on an object. -/
def targetOf (generator : Generator) (object : ObjectRef) : String :=
  match object with
  | .path path => generator.scope.pathType path
  | .network _ port => generator.scope.portType port
  | .port port => generator.scope.portType port
  | .token token => token

/-- What the object of an allow rule under a class declares. A port without a protocol has the one
of the class, if the class is of sockets. -/
def objectFragment (generator : Generator) (roleAttributes : List String) (rule : Rule)
    (objectClass : String) : Fragment :=
  match rule.objectRef with
  | .path path => generator.pathFragment path rule
  | .network protocol port => generator.portFragment protocol port
  | .port port =>
    generator.portFragment ((Protocol.ofSocketClass? objectClass).getD .tcp) port
  | .token token => tokenFragment roleAttributes token objectClass

/-- The meaning of the action of a rule. -/
def meaningOf (generator : Generator) (rule : Rule) : ActionMeaning :=
  generator.actions.meaning rule.action (some rule.objectClass)

/-- The domain of a subject. -/
def domainOf (subject : String) : String :=
  TypeName.ensureEnding subject

/-- A rule that allows, under the condition of a rule of the table. -/
def grant (rule : Rule) (source target objectClass : String) (permissions : List String) :
    GuardedRule :=
  { condition := rule.condition, rule := .of source target objectClass permissions }

/-- What a rule on capabilities allows: they are those of the domain itself, whatever the
object. -/
def capabilityFragment (rule : Rule) (meaning : ActionMeaning) : Fragment where
  types := [.of (domainOf rule.subject) [TypeName.domainAttribute] none]
  rules := [grant rule (domainOf rule.subject) AllowRule.selfTarget meaning.objectClass
    meaning.permissions]
  capabilities := meaning.permissions.map fun capability =>
    { domain := domainOf rule.subject, capability }

/-- What a rule on an object allows. -/
def accessFragment (generator : Generator) (roleAttributes : List String) (rule : Rule)
    (meaning : ActionMeaning) : Fragment :=
  let object := generator.objectFragment roleAttributes rule meaning.objectClass
  { object with
    types := .of (domainOf rule.subject) [TypeName.domainAttribute] none :: object.types
    rules := [grant rule (domainOf rule.subject) (generator.targetOf rule.objectRef)
      meaning.objectClass meaning.permissions] }

/-- The contribution of a rule that allows or denies. -/
def ruleFragment (generator : Generator) (roleAttributes : List String) (rule : Rule) : Fragment :=
  if rule.effect? = some .allow then
    if ObjectClass.isCapability (generator.meaningOf rule).objectClass then
      capabilityFragment rule (generator.meaningOf rule)
    else generator.accessFragment roleAttributes rule (generator.meaningOf rule)
  else {}

/-- The contribution of a role. A role whose name has no word is left out. -/
def roleFragment : Role → Fragment
  | .membership member role =>
    if TypeName.sanitize role = "" then {}
    else { types := [.of (TypeName.ensureEnding member) [TypeName.sanitize role] none] }
  | .boolean name default => { booleans := [{ name, default }] }

/-- The attributes that roles introduce. -/
def roleAttributes (roles : List Role) : List String :=
  (roles.filterMap fun
    | .membership _ role => some (TypeName.sanitize role)
    | .boolean _ _ => none).filter (· ≠ "")

/-- The target of a change of type: the type of a path, or else a type by name. -/
def transitionTarget (generator : Generator) (rule : Rule) (clause : TransitionClause) : String :=
  match rule.objectRef with
  | .path path => generator.scope.pathType path
  | _ => TypeName.ensureEnding clause.targetType

/-- What the target of a change of type declares, where it is a path. -/
def transitionObject (generator : Generator) (rule : Rule) : Fragment :=
  match rule.objectRef with
  | .path path => generator.pathFragment path rule
  | _ => {}

/-- What a change of the domain of a process allows: to execute the entry point, to make the
change, and to enter the new domain there. -/
def processGrants (rule : Rule) (source entryPoint newDomain : String) : List GuardedRule := [
  grant rule source entryPoint ObjectClass.file [executePermission],
  grant rule source newDomain ObjectClass.process ["transition"],
  grant rule newDomain entryPoint ObjectClass.file ["entrypoint"]]

/-- The contribution of a rule that changes a type. -/
def transitionFragment (generator : Generator) (rule : Rule) (clause : TransitionClause) :
    Fragment :=
  let object := generator.transitionObject rule
  let source := domainOf clause.sourceType
  let newType := TypeName.ensureEnding clause.newType
  let target := generator.transitionTarget rule clause
  let change : TypeTransition := { source, target, objectClass := clause.objectClass, newType }
  if clause.isProcess then
    { object with
      types := object.types ++ [
        .of source [TypeName.domainAttribute] none,
        .of newType [TypeName.domainAttribute] none,
        .of target [TypeName.programAttribute] none]
      typeTransitions := [change]
      rules := processGrants rule source target newType
      declared := [{
        source, entryPoint := target, newDomain := newType, condition := rule.condition }] }
  else
    { object with
      types := object.types ++ [
        .of source [TypeName.domainAttribute] none,
        .of newType [TypeName.fileAttribute] none]
      typeTransitions := [change] }

/-! ## Generation -/

/-- The fragment of a table: rules that allow, then roles, then changes of type. -/
def fragment (generator : Generator) (set : RuleSet) : Fragment :=
  .concat (
    set.policyRules.map (generator.ruleFragment (roleAttributes set.roles))
      ++ set.roles.map roleFragment
      ++ set.transitions.map fun (rule, clause) => generator.transitionFragment rule clause)

/-- What is inferred from a fragment. -/
def inference (generator : Generator) (fragment : Fragment) : Inference :=
  if generator.infersTransitions then
    .run (.ofRules ((Fragment.effective fragment.rules).map (·.rule))) fragment.declared
  else .empty

/-- The policy of a table. -/
def generate (generator : Generator) (set : RuleSet) : Policy :=
  let fragment := generator.fragment set
  fragment.toPolicy (generator.inference fragment) generator.moduleName generator.version

/-- A cycle among the inferred domain transitions of a policy, which deserves a warning. -/
def transitionLoop? (policy : Policy) : Option (List String) :=
  (TransitionGraph.ofTransitions policy.domainTransitions).findCycle?

end Generator

end TypeEnforcement
