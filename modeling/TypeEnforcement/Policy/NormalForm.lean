import TypeEnforcement.Policy
/-!
# Normal form of a policy

A policy may say one thing in many ways. `Optimizer.run` brings it into one form, without a change
of what it allows, except that whoever may read, write or append to a file may also open it:

* one rule for each key, with all its permissions; one block for each condition;
* one declaration for each type; one file context for each pattern and kind, the first;
* optionally, no rule that another one with the same key covers;
* optionally, no type that nothing refers to, and no file context of such a type.

Every collection of the result is canonical: in strictly increasing order. The `Report` counts what
was removed.
-/

namespace TypeEnforcement

/-! ## Merging -/

namespace AllowRule

/-- The permissions that include the permission to open, on objects of a file system. -/
def openers : List String :=
  ["read", "write", "append"]

/-- The permission to open. -/
def openPermission : String := "open"

/-- Permissions on a class, with the one to open where it is implied. -/
def withOpen (objectClass : String) (permissions : List String) : List String :=
  if ObjectClass.isFileLike objectClass && permissions.any openers.contains then
    openPermission :: permissions
  else permissions

/-- The permissions that rules give for a key. -/
def permissionsFor (key : AccessKey) (rules : List AllowRule) : List String :=
  (rules.filter (·.key == key)).flatMap (·.permissions)

/-- One rule for each key, in order, with all permissions for it in order. -/
def merge (rules : List AllowRule) : List AllowRule :=
  (Canonical.ofList (rules.map key)).map fun key =>
    ofKey key (Canonical.ofList (withOpen key.objectClass (permissionsFor key rules)))

/-! ## Redundancy -/

/-- Whether each permission of a rule is one of another with the same key. -/
def isCoveredBy (rule other : AllowRule) : Bool :=
  rule.key == other.key && rule.permissions.all other.permissions.contains

/-- Whether another rule with the same key has all permissions of a rule and more. -/
def isDominatedBy (rule other : AllowRule) : Bool :=
  rule.isCoveredBy other && !other.isCoveredBy rule

/-- The rules that no other rule of the list dominates. Of rules with the same permissions none
dominates another, so all of them stay. -/
def eliminateRedundant (rules : List AllowRule) : List AllowRule :=
  rules.filter fun rule => !rules.any rule.isDominatedBy

end AllowRule

namespace ConditionalBlock

/-- One block for each condition, in order, with its rules merged; a block without rules is left
out. -/
def merge (blocks : List ConditionalBlock) : List ConditionalBlock :=
  ((Canonical.ofList (blocks.map (·.condition))).map fun condition =>
    { condition
      rules := AllowRule.merge
        ((blocks.filter (·.condition == condition)).flatMap (·.rules)) :
      ConditionalBlock }).filter fun block => !block.rules.isEmpty

/-- A block without the rules that another of its rules dominates or that hold without the
condition. -/
def eliminateRedundant (unconditional : List AllowRule) (block : ConditionalBlock) :
    ConditionalBlock :=
  { block with
    rules := (AllowRule.eliminateRedundant block.rules).filter fun rule =>
      !unconditional.any rule.isCoveredBy }

end ConditionalBlock

namespace TypeDecl

/-- One declaration for each type, in order. -/
def merge (decls : List TypeDecl) : List TypeDecl :=
  (Canonical.ofList (decls.map (·.name))).map fun name => union name (named name decls)

/-- Whether some names include a type or one of its attributes. -/
def isAmong (names : List String) (decl : TypeDecl) : Bool :=
  names.contains decl.name || decl.attributes.any names.contains

end TypeDecl

namespace FileContext

/-- The first file context of each key, in the order of the keys. -/
def merge (entries : List FileContext) : List FileContext :=
  (Canonical.ofList (entries.map key)).filterMap fun key => entries.find? (·.key == key)

end FileContext

/-! ## Passes -/

namespace Policy

/-- Merges the rules that allow. -/
def mergeRules (policy : Policy) : Policy :=
  { policy with
    allowRules := AllowRule.merge policy.allowRules
    conditionals := ConditionalBlock.merge policy.conditionals }

/-- Drops the rules that others cover, and the blocks without a rule. -/
def eliminateRedundant (policy : Policy) : Policy :=
  let unconditional := AllowRule.eliminateRedundant policy.allowRules
  { policy with
    allowRules := unconditional
    conditionals := (policy.conditionals.map (·.eliminateRedundant unconditional)).filter
      fun block => !block.rules.isEmpty }

/-- The names that the rules of a policy and its port bindings refer to. -/
def references (policy : Policy) : List String :=
  (policy.allowRules ++ policy.conditionalRules).flatMap (fun rule => [rule.source, rule.target])
    ++ policy.typeTransitions.flatMap (fun t => [t.source, t.target, t.newType])
    ++ policy.portBindings.map (·.typeName)

/-- The names of the declarations that a policy does not refer to. -/
def unusedTypes (policy : Policy) : List String :=
  let references := policy.references
  Canonical.ofList ((policy.types.filter (! ·.isAmong references)).map (·.name))

/-- Drops the declarations that a policy does not refer to, and their file contexts. -/
def pruneTypes (policy : Policy) : Policy :=
  let references := policy.references
  let unused := policy.unusedTypes
  { policy with
    types := policy.types.filter (·.isAmong references)
    fileContexts := policy.fileContexts.filter fun entry => !unused.contains entry.targetType }

/-- Puts the other collections into canonical form. -/
def sortParts (policy : Policy) : Policy :=
  { policy with
    typeTransitions := Canonical.ofList policy.typeTransitions
    capabilities := Canonical.ofList policy.capabilities
    portBindings := Canonical.ofList policy.portBindings
    booleans := Canonical.ofList policy.booleans
    domainTransitions := Canonical.ofList policy.domainTransitions }

end Policy

/-! ## The optimizer -/

/-- How much was removed from a policy. -/
structure Report where
  mergedRules : Nat
  duplicateTypes : Nat
  duplicateFileContexts : Nat
  redundantRules : Nat
  prunedTypes : Nat
  /-- The file contexts that went with the type that they give. -/
  orphanedFileContexts : Nat
deriving DecidableEq, Repr

namespace Report

/-- How much was removed in all. -/
def total (report : Report) : Nat :=
  report.mergedRules + report.duplicateTypes + report.duplicateFileContexts
    + report.redundantRules + report.prunedTypes + report.orphanedFileContexts

end Report

/-- Which of the optional passes are made. -/
structure Optimizer where
  eliminatesRedundant : Bool
  prunesTypes : Bool
deriving DecidableEq, Repr

namespace Optimizer

/-- A policy with its rules, types and file contexts merged. -/
def merged (policy : Policy) : Policy :=
  { policy.mergeRules with
    types := TypeDecl.merge policy.types
    fileContexts := FileContext.merge policy.fileContexts }

/-- A merged policy after the elimination of redundant rules, if that is asked for. -/
def eliminated (optimizer : Optimizer) (policy : Policy) : Policy :=
  if optimizer.eliminatesRedundant then (merged policy).eliminateRedundant else merged policy

/-- A policy after all passes but the last. -/
def pruned (optimizer : Optimizer) (policy : Policy) : Policy :=
  if optimizer.prunesTypes then (optimizer.eliminated policy).pruneTypes
  else optimizer.eliminated policy

/-- The normal form of a policy. -/
def run (optimizer : Optimizer) (policy : Policy) : Policy :=
  (optimizer.pruned policy).sortParts

/-- The passes after elimination leave the unconditional rules alone. -/
theorem allowRules_run (optimizer : Optimizer) (policy : Policy) :
    (optimizer.run policy).allowRules = (optimizer.eliminated policy).allowRules := by
  unfold run pruned
  split <;> rfl

/-- The passes after elimination leave the blocks alone. -/
theorem conditionals_run (optimizer : Optimizer) (policy : Policy) :
    (optimizer.run policy).conditionals = (optimizer.eliminated policy).conditionals := by
  unfold run pruned
  split <;> rfl

/-- What the optimizer removes from a policy. -/
def report (optimizer : Optimizer) (policy : Policy) : Report where
  mergedRules := policy.allowCount - (merged policy).allowCount
  duplicateTypes := policy.types.length - (merged policy).types.length
  duplicateFileContexts := policy.fileContexts.length - (merged policy).fileContexts.length
  redundantRules := (merged policy).allowCount - (optimizer.eliminated policy).allowCount
  prunedTypes :=
    if optimizer.prunesTypes then (optimizer.eliminated policy).unusedTypes.length else 0
  orphanedFileContexts :=
    (optimizer.eliminated policy).fileContexts.length
      - (optimizer.pruned policy).fileContexts.length

end Optimizer

end TypeEnforcement
