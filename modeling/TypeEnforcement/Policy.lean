import TypeEnforcement.Canonical
import TypeEnforcement.FileKind
import TypeEnforcement.Rule
/-!
# Policies

The object model of a type-enforcement policy: declarations of types, rules that allow, changes of
type, file contexts, capabilities, port bindings, booleans, the rules that depend on a boolean, and
the domain transitions that were inferred. Everything that is not allowed is denied, so a policy
has no rule that denies.

The orders on the parts are the ones in which a policy in normal form lists them.
-/

namespace TypeEnforcement

/-! ## Types -/

/-- The declaration of a type. -/
structure TypeDecl where
  name : String
  /-- A canonical list. -/
  attributes : List String
  comment : Option String
deriving DecidableEq, Repr

namespace TypeDecl

/-- A declaration with the attributes of a list. -/
def of (name : String) (attributes : List String) (comment : Option String) : TypeDecl :=
  { name, attributes := Canonical.ofList attributes, comment }

/-- Whether a type has an attribute. -/
def hasAttribute (decl : TypeDecl) (name : String) : Bool :=
  decl.attributes.contains name

/-- One declaration in place of all those of a type: their attributes together, and the comment of
the first that has one. -/
def union (name : String) (decls : List TypeDecl) : TypeDecl :=
  of name (decls.flatMap (·.attributes)) (decls.findSome? (·.comment))

/-- The declarations of a type. -/
def named (name : String) (decls : List TypeDecl) : List TypeDecl :=
  decls.filter (·.name == name)

end TypeDecl

/-! ## Rules that allow -/

/-- Who gets access to what: the key of a rule that allows. -/
structure AccessKey where
  source : String
  target : String
  objectClass : String
deriving DecidableEq, Repr

namespace AccessKey

instance : Ord AccessKey where
  compare := compareLex (compareOn (·.source))
    (compareLex (compareOn (·.target)) (compareOn (·.objectClass)))

end AccessKey

/-- A rule that allows a source type some permissions on the objects of a target type. -/
structure AllowRule where
  source : String
  target : String
  objectClass : String
  permissions : List String
deriving DecidableEq, Repr

namespace AllowRule

/-- The target that stands for the source itself. -/
def selfTarget : String := "self"

/-- A rule with each of some permissions once. -/
def of (source target objectClass : String) (permissions : List String) : AllowRule :=
  { source, target, objectClass, permissions := Canonical.distinct permissions }

/-- The key of a rule. -/
def key (rule : AllowRule) : AccessKey :=
  { source := rule.source, target := rule.target, objectClass := rule.objectClass }

/-- The rule of a key. -/
def ofKey (key : AccessKey) (permissions : List String) : AllowRule :=
  { source := key.source, target := key.target, objectClass := key.objectClass, permissions }

/-- Whether a rule gives a permission. -/
def hasPermission (rule : AllowRule) (permission : String) : Bool :=
  rule.permissions.contains permission

/-- The permissions of a rule as a canonical list. -/
def permissionSet (rule : AllowRule) : List String :=
  Canonical.ofList rule.permissions

end AllowRule

/-- A rule that allows, while its condition holds if it has one. -/
structure GuardedRule where
  condition : Option Condition
  rule : AllowRule
deriving DecidableEq, Repr

/-- The rules that allow while a condition holds. -/
structure ConditionalBlock where
  condition : Condition
  rules : List AllowRule
deriving DecidableEq, Repr

/-! ## Changes of type -/

/-- A rule that changes a type. -/
structure TypeTransition where
  source : String
  target : String
  objectClass : String
  newType : String
deriving DecidableEq, Repr

namespace TypeTransition

instance : Ord TypeTransition where
  compare := compareLex (compareOn (·.source)) (compareLex (compareOn (·.target))
    (compareLex (compareOn (·.objectClass)) (compareOn (·.newType))))

/-- Whether a type has a part in a change. -/
def mentions (transition : TypeTransition) (name : String) : Bool :=
  transition.source == name || transition.target == name || transition.newType == name

end TypeTransition

/-- A transition between domains by way of an entry point. -/
structure DomainTransition where
  source : String
  target : String
  entryPoint : String
  inferred : Bool
  conditions : List Condition
deriving DecidableEq, Repr

namespace DomainTransition

instance : Ord DomainTransition where
  compare := compareLex (compareOn (·.source)) (compareLex (compareOn (·.target))
    (compareLex (compareOn (·.entryPoint))
      (compareLex (compareOn (·.inferred)) (compareOn (·.conditions)))))

end DomainTransition

/-! ## Labels and other parts -/

/-- A file context: the files of a pattern have a type. -/
structure FileContext where
  pattern : String
  kind : FileKind
  targetType : String
  comment : Option String
deriving DecidableEq, Repr

/-- Which files a file context is about. -/
structure FileContextKey where
  pattern : String
  kind : FileKind
deriving DecidableEq, Repr

namespace FileContextKey

instance : Ord FileContextKey where
  compare := compareLex (compareOn (·.pattern)) (compareOn (·.kind))

end FileContextKey

namespace FileContext

/-- The key of a file context. -/
def key (entry : FileContext) : FileContextKey :=
  { pattern := entry.pattern, kind := entry.kind }

end FileContext

/-- A capability of a domain. -/
structure CapabilityGrant where
  domain : String
  capability : String
deriving DecidableEq, Repr

namespace CapabilityGrant

instance : Ord CapabilityGrant where
  compare := compareLex (compareOn (·.domain)) (compareOn (·.capability))

end CapabilityGrant

/-- A port has a type. -/
structure PortBinding where
  protocol : Protocol
  port : String
  typeName : String
deriving DecidableEq, Repr

namespace PortBinding

instance : Ord PortBinding where
  compare := compareLex (compareOn (·.protocol))
    (compareLex (compareOn (·.port)) (compareOn (·.typeName)))

end PortBinding

/-- A boolean and its default. -/
structure BooleanDecl where
  name : String
  default : Bool
deriving DecidableEq, Repr

namespace BooleanDecl

instance : Ord BooleanDecl where
  compare := compareLex (compareOn (·.name)) (compareOn (·.default))

end BooleanDecl

/-! ## Policies -/

/-- A policy of a module. -/
structure Policy where
  moduleName : String
  version : String
  types : List TypeDecl := []
  allowRules : List AllowRule := []
  typeTransitions : List TypeTransition := []
  fileContexts : List FileContext := []
  capabilities : List CapabilityGrant := []
  portBindings : List PortBinding := []
  booleans : List BooleanDecl := []
  conditionals : List ConditionalBlock := []
  domainTransitions : List DomainTransition := []
deriving DecidableEq, Repr

namespace Policy

/-- The first declaration of a type. -/
def findType? (policy : Policy) (name : String) : Option TypeDecl :=
  policy.types.find? (·.name == name)

/-- The first unconditional rule with a key. -/
def findAllow? (policy : Policy) (key : AccessKey) : Option AllowRule :=
  policy.allowRules.find? (·.key == key)

/-- The names of the declared types. -/
def typeNames (policy : Policy) : List String :=
  Canonical.ofList (policy.types.map (·.name))

/-- The rules that depend on a condition. -/
def conditionalRules (policy : Policy) : List AllowRule :=
  policy.conditionals.flatMap (·.rules)

/-- How many rules allow. -/
def allowCount (policy : Policy) : Nat :=
  policy.allowRules.length + policy.conditionalRules.length

/-- How many rules of every kind there are. -/
def ruleCount (policy : Policy) : Nat :=
  policy.allowCount + policy.typeTransitions.length

end Policy

end TypeEnforcement
