import TypeEnforcement.Policy
import TypeEnforcement.TypeName
/-!
# Inference of domain transitions

A declared change of a process's domain works only with some access rules: the source runs the
entry point, the new domain may be entered there, and parent and child may signal each other. Where
the declaration is sound, these rules are inferred: the two domains differ, the entry point is
named like a program, and the source may already execute it.

`ExecuteGrants` holds who may execute what; `Inference.run` answers for a list of declarations.
-/

namespace TypeEnforcement

/-- A declared change of the domain of a process. -/
structure DeclaredTransition where
  source : String
  entryPoint : String
  newDomain : String
  condition : Option Condition
deriving DecidableEq, Repr

/-- The permission to execute a file. -/
def executePermission : String := "execute"

/-! ## Who may execute what -/

/-- Pairs of a domain and a type of files that it may execute. -/
structure ExecuteGrants where
  pairs : List (String × String)
deriving DecidableEq, Repr

namespace ExecuteGrants

/-- No domain may execute anything. -/
def empty : ExecuteGrants :=
  { pairs := [] }

/-- Whether a rule allows to execute a file. -/
def counts (rule : AllowRule) : Bool :=
  rule.objectClass == ObjectClass.file && rule.hasPermission executePermission

/-- Takes note of a rule, if it allows to execute a file. -/
def record (grants : ExecuteGrants) (rule : AllowRule) : ExecuteGrants :=
  if counts rule then { pairs := (rule.source, rule.target) :: grants.pairs } else grants

/-- Takes note of rules. -/
def ofRules (rules : List AllowRule) : ExecuteGrants :=
  rules.foldl record empty

/-- Whether a domain may execute an entry point. -/
def canExecute (grants : ExecuteGrants) (domain entryPoint : String) : Bool :=
  grants.pairs.contains (domain, entryPoint)

end ExecuteGrants

/-! ## Inference -/

/-- Why nothing is inferred from a declaration. -/
inductive Rejection where
  | sameDomain
  | notProgram
  | noExecute
deriving DecidableEq, Repr

/-- What is inferred from declarations. -/
structure Inference where
  transitions : List DomainTransition
  rules : List GuardedRule
deriving DecidableEq, Repr

namespace Inference

/-- Nothing. -/
def empty : Inference :=
  { transitions := [], rules := [] }

/-- The first reason against a declaration. -/
def rejection? (grants : ExecuteGrants) (declared : DeclaredTransition) : Option Rejection :=
  if declared.source = declared.newDomain then some .sameDomain
  else if ! TypeName.isProgram declared.entryPoint then some .notProgram
  else if ! grants.canExecute declared.source declared.entryPoint then some .noExecute
  else none

/-- The rules that a change of domain needs. -/
def rulesFor (declared : DeclaredTransition) : List AllowRule := [
  .of declared.source declared.entryPoint ObjectClass.file
    [executePermission, "read", "getattr", "open"],
  .of declared.newDomain declared.entryPoint ObjectClass.file ["entrypoint"],
  .of declared.source declared.newDomain ObjectClass.process ["transition"],
  .of declared.newDomain declared.source ObjectClass.process ["sigchld"],
  .of declared.newDomain AllowRule.selfTarget ObjectClass.process ["fork", "sigchld", "signal"]]

/-- The record of a change of domain. -/
def transitionOf (declared : DeclaredTransition) : DomainTransition where
  source := declared.source
  target := declared.newDomain
  entryPoint := declared.entryPoint
  inferred := true
  conditions := declared.condition.toList

/-- The declarations from which something is inferred, each once. -/
def accepted (grants : ExecuteGrants) (declared : List DeclaredTransition) :
    List DeclaredTransition :=
  Canonical.distinct (declared.filter fun d => (rejection? grants d).isNone)

/-- Infers from declarations; the rules depend on the condition of their declaration. -/
def run (grants : ExecuteGrants) (declared : List DeclaredTransition) : Inference where
  transitions := (accepted grants declared).map transitionOf
  rules := (accepted grants declared).flatMap fun d =>
    (rulesFor d).map fun rule => { condition := d.condition, rule }

end Inference

end TypeEnforcement
