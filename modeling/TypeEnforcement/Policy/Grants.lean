import TypeEnforcement.Policy
/-!
# What a policy grants

The meaning of a policy is what it allows: for given values of the booleans, the set of accesses
that its unconditional rules and the blocks whose condition holds give. Order, repetition and the
grouping into rules do not matter to it.

* `mem_grants` — an access is granted if it is one of an unconditional rule or of a rule in a block
  whose condition holds.
-/

namespace TypeEnforcement

/-- One permission of a source type on the objects of a target type. -/
structure Access where
  source : String
  target : String
  objectClass : String
  permission : String
deriving DecidableEq, Repr

namespace AllowRule

/-- The accesses that a rule gives. -/
def accesses (rule : AllowRule) : List Access :=
  rule.permissions.map fun permission =>
    { source := rule.source, target := rule.target, objectClass := rule.objectClass, permission }

theorem mem_accesses {rule : AllowRule} {access : Access} :
    access ∈ rule.accesses ↔
      rule.source = access.source ∧ rule.target = access.target
        ∧ rule.objectClass = access.objectClass ∧ access.permission ∈ rule.permissions := by
  rw [accesses, List.mem_map]
  constructor
  · intro hexists
    obtain ⟨permission, hmem, rfl⟩ := hexists
    exact ⟨rfl, rfl, rfl, hmem⟩
  · intro hboth
    obtain ⟨hsource, htarget, hclass, hmem⟩ := hboth
    refine ⟨access.permission, hmem, ?_⟩
    rw [hsource, htarget, hclass]

end AllowRule

namespace Policy

/-- The blocks whose condition holds for given values of the booleans. -/
def activeBlocks (policy : Policy) (values : String → Bool) : List ConditionalBlock :=
  policy.conditionals.filter (·.condition.holds values)

/-- The rules in force for given values of the booleans. -/
def activeRules (policy : Policy) (values : String → Bool) : List AllowRule :=
  policy.allowRules ++ (policy.activeBlocks values).flatMap (·.rules)

/-- The accesses that a policy grants for given values of the booleans. -/
def grants (policy : Policy) (values : String → Bool) : List Access :=
  (policy.activeRules values).flatMap AllowRule.accesses

theorem mem_activeRules {policy : Policy} {values : String → Bool} {rule : AllowRule} :
    rule ∈ policy.activeRules values ↔
      rule ∈ policy.allowRules ∨
        ∃ block ∈ policy.conditionals,
          block.condition.holds values = true ∧ rule ∈ block.rules := by
  simp only [activeRules, activeBlocks, List.mem_append, List.mem_flatMap, List.mem_filter,
    and_assoc]

theorem mem_grants {policy : Policy} {values : String → Bool} {access : Access} :
    access ∈ policy.grants values ↔
      ∃ rule ∈ policy.activeRules values, access ∈ rule.accesses := by
  rw [grants, List.mem_flatMap]

end Policy

end TypeEnforcement
