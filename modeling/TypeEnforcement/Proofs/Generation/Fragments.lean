import TypeEnforcement.Canonical.Lemmas
import TypeEnforcement.Generation
import TypeEnforcement.Policy.Grants
import TypeEnforcement.Policy.Order
/-!
# Fragments and the policy made of them

A generated policy grants what the guarded rules give that are in force, those of its fragment and
those inferred from it (`Fragment.mem_grants_toPolicy`). The fragment of a table is laid out of one
fragment for each rule and each role (`Generator.mem_fragments`); the lemmas after it say which
rules these have, which types they change and which changes of domain they declare.
-/

namespace TypeEnforcement

open Canonical

/-! ## Guarded rules -/

namespace GuardedRule

/-- Whether a guarded rule is in force for given values of the booleans. -/
def isActive (values : String → Bool) (guarded : GuardedRule) : Bool :=
  guarded.condition.all (·.holds values)

/-- Whether some guarded rule in force gives an access. -/
def Grant (values : String → Bool) (rules : List GuardedRule) (access : Access) : Prop :=
  ∃ guarded ∈ rules, guarded.isActive values = true ∧ access ∈ guarded.rule.accesses

theorem grant_append {values : String → Bool} {rules others : List GuardedRule} {access : Access} :
    Grant values (rules ++ others) access ↔
      Grant values rules access ∨ Grant values others access := by
  simp only [Grant, List.mem_append, or_and_right, exists_or]

end GuardedRule

open GuardedRule (Grant)

theorem AllowRule.accesses_of_iff {source target objectClass : String} {permissions : List String}
    {access : Access} :
    access ∈ (AllowRule.of source target objectClass permissions).accesses ↔
      access ∈ permissions.map (Access.mk source target objectClass) := by
  simp only [accesses, AllowRule.of, List.mem_map, mem_distinct]

namespace Fragment

variable {rules : List GuardedRule} {values : String → Bool} {access : Access}

theorem mem_unconditional {rule : AllowRule} :
    rule ∈ unconditional rules ↔ ⟨none, rule⟩ ∈ rules := by
  simp only [unconditional, List.mem_filterMap]
  constructor
  · intro hexists
    obtain ⟨⟨condition, other⟩, hmem, hrule⟩ := hexists
    cases condition with
    | none =>
      obtain rfl : other = rule := by simpa using hrule
      exact hmem
    | some condition => exact absurd hrule (by simp)
  · intro hmem
    exact ⟨⟨none, rule⟩, hmem, rfl⟩

theorem mem_under {condition : Condition} {rule : AllowRule} :
    rule ∈ under condition rules ↔ ⟨some condition, rule⟩ ∈ rules := by
  simp only [under, List.mem_filterMap]
  constructor
  · intro hexists
    obtain ⟨⟨found, other⟩, hmem, hrule⟩ := hexists
    by_cases hfound : found = some condition
    · subst hfound
      obtain rfl : other = rule := by simpa using hrule
      exact hmem
    · exact absurd hrule (by simp [hfound])
  · intro hmem
    exact ⟨⟨some condition, rule⟩, hmem, by simp⟩

theorem mem_blocks {block : ConditionalBlock} :
    block ∈ blocks rules ↔
      block.rules = under block.condition rules
        ∧ ∃ rule, ⟨some block.condition, rule⟩ ∈ rules := by
  simp only [blocks, conditions, List.mem_map, mem_ofList, List.mem_filterMap]
  constructor
  · intro hexists
    obtain ⟨condition, ⟨⟨found, rule⟩, hmem, rfl⟩, rfl⟩ := hexists
    exact ⟨rfl, rule, hmem⟩
  · intro hboth
    obtain ⟨hrules, rule, hmem⟩ := hboth
    exact ⟨block.condition, ⟨⟨some block.condition, rule⟩, hmem, rfl⟩, by rw [← hrules]⟩

/-- Rules without a permission give no access, so it does not matter that they are left out. -/
theorem grant_effective :
    Grant values (effective rules) access ↔ Grant values rules access := by
  simp only [Grant, effective, List.mem_filter, Bool.not_eq_true', List.isEmpty_eq_false_iff]
  constructor
  · intro hexists
    obtain ⟨guarded, ⟨hmem, -⟩, hactive, haccess⟩ := hexists
    exact ⟨guarded, hmem, hactive, haccess⟩
  · intro hexists
    obtain ⟨guarded, hmem, hactive, haccess⟩ := hexists
    have hpermission := (AllowRule.mem_accesses.mp haccess).2.2.2
    exact ⟨guarded, ⟨hmem, List.ne_nil_of_mem hpermission⟩, hactive, haccess⟩

/-- The policy of a fragment grants what the guarded rules give that are in force. -/
theorem mem_grants_toPolicy {fragment : Fragment} {inference : Inference}
    {moduleName version : String} :
    access ∈ (fragment.toPolicy inference moduleName version).grants values ↔
      Grant values (fragment.rules ++ inference.rules) access := by
  rw [← grant_effective, Policy.mem_grants]
  simp only [Policy.mem_activeRules, toPolicy, mem_unconditional, Grant]
  constructor
  · intro hexists
    rcases hexists with ⟨rule, hrule | ⟨block, hblock, hholds, hrule⟩, haccess⟩
    · exact ⟨⟨none, rule⟩, hrule, rfl, haccess⟩
    · rw [(mem_blocks.mp hblock).1, mem_under] at hrule
      exact ⟨⟨some block.condition, rule⟩, hrule, hholds, haccess⟩
  · intro hexists
    obtain ⟨⟨condition, rule⟩, hmem, hactive, haccess⟩ := hexists
    refine ⟨rule, ?_, haccess⟩
    cases condition with
    | none => exact Or.inl hmem
    | some condition =>
      refine Or.inr ⟨⟨condition, under condition _⟩, ?_, hactive, mem_under.mpr hmem⟩
      exact mem_blocks.mpr ⟨rfl, rule, hmem⟩

end Fragment

/-! ## Rules of the fragments -/

namespace Generator

variable {generator : Generator} {set : RuleSet} {rule : Rule} {clause : TransitionClause}
  {values : String → Bool} {access : Access}

/-- The change of type that a rule asks for. -/
def typeChangeOf (generator : Generator) (rule : Rule) (clause : TransitionClause) :
    TypeTransition where
  source := TypeName.ensureEnding clause.sourceType
  target := generator.transitionTarget rule clause
  objectClass := clause.objectClass
  newType := TypeName.ensureEnding clause.newType

/-- The change of domain that a rule declares. -/
def changeOf (generator : Generator) (rule : Rule) (clause : TransitionClause) :
    DeclaredTransition where
  source := TypeName.ensureEnding clause.sourceType
  entryPoint := generator.transitionTarget rule clause
  newDomain := TypeName.ensureEnding clause.newType
  condition := rule.condition

/-- The fragments of a table, which are laid end to end. -/
def fragments (generator : Generator) (set : RuleSet) : List Fragment :=
  set.policyRules.map (generator.ruleFragment (roleAttributes set.roles))
    ++ set.roles.map roleFragment
    ++ set.transitions.map fun (rule, clause) => generator.transitionFragment rule clause

theorem fragment_eq_concat (generator : Generator) (set : RuleSet) :
    generator.fragment set = .concat (generator.fragments set) := rfl

/-- A fragment comes from a rule that changes no type, from a role, or from a change of type. -/
theorem mem_fragments {part : Fragment} :
    part ∈ generator.fragments set ↔
      (∃ rule ∈ set.rules, rule.transition = none
          ∧ generator.ruleFragment (roleAttributes set.roles) rule = part)
        ∨ (∃ role ∈ set.roles, roleFragment role = part)
        ∨ ∃ rule ∈ set.rules, ∃ clause, rule.transition = some clause
            ∧ generator.transitionFragment rule clause = part := by
  simp only [fragments, List.mem_append, List.mem_map, RuleSet.policyRules, RuleSet.transitions,
    List.mem_filter, List.mem_filterMap, Option.isNone_iff_eq_none, Option.map_eq_some_iff,
    or_assoc, and_assoc]
  refine or_congr Iff.rfl (or_congr Iff.rfl ?_)
  constructor
  · intro hexists
    obtain ⟨_, ⟨rule, hrule, clause, hclause, rfl⟩, rfl⟩ := hexists
    exact ⟨rule, hrule, clause, hclause, rfl⟩
  · intro hexists
    obtain ⟨rule, hrule, clause, hclause, rfl⟩ := hexists
    exact ⟨(rule, clause), ⟨rule, hrule, clause, hclause, rfl⟩, rfl⟩

/-! ### Roles -/

/-- A role contributes declarations of types and booleans only. -/
theorem roleFragment_eq (role : Role) :
    roleFragment role =
      { types := (roleFragment role).types, booleans := (roleFragment role).booleans } := by
  cases role with
  | membership member name =>
    simp only [roleFragment]
    split <;> rfl
  | boolean name default => rfl

theorem rules_roleFragment (role : Role) : (roleFragment role).rules = [] :=
  congrArg Fragment.rules (roleFragment_eq role)

theorem typeTransitions_roleFragment (role : Role) : (roleFragment role).typeTransitions = [] :=
  congrArg Fragment.typeTransitions (roleFragment_eq role)

theorem fileContexts_roleFragment (role : Role) : (roleFragment role).fileContexts = [] :=
  congrArg Fragment.fileContexts (roleFragment_eq role)

theorem declared_roleFragment (role : Role) : (roleFragment role).declared = [] :=
  congrArg Fragment.declared (roleFragment_eq role)

/-! ### Rules that allow -/

/-- A rule that changes no type contributes no change of type, no boolean and no change of
domain. -/
theorem ruleFragment_eq (generator : Generator) (attributes : List String) (rule : Rule) :
    generator.ruleFragment attributes rule =
      { generator.ruleFragment attributes rule with
        typeTransitions := [], booleans := [], declared := [] } := by
  unfold ruleFragment
  split
  · split
    · rfl
    · unfold accessFragment objectFragment
      split <;> rfl
  · rfl

theorem typeTransitions_ruleFragment (generator : Generator) (attributes : List String)
    (rule : Rule) : (generator.ruleFragment attributes rule).typeTransitions = [] :=
  congrArg Fragment.typeTransitions (generator.ruleFragment_eq attributes rule)

theorem booleans_ruleFragment (generator : Generator) (attributes : List String) (rule : Rule) :
    (generator.ruleFragment attributes rule).booleans = [] :=
  congrArg Fragment.booleans (generator.ruleFragment_eq attributes rule)

theorem declared_ruleFragment (generator : Generator) (attributes : List String) (rule : Rule) :
    (generator.ruleFragment attributes rule).declared = [] :=
  congrArg Fragment.declared (generator.ruleFragment_eq attributes rule)

/-- A rule that allows contributes one rule, on its object or on the subject itself. -/
theorem rules_ruleFragment (generator : Generator) (attributes : List String) (rule : Rule) :
    (generator.ruleFragment attributes rule).rules =
      if rule.effect? = some .allow then
        [grant rule (domainOf rule.subject)
          (if ObjectClass.isCapability (generator.meaningOf rule).objectClass then
            AllowRule.selfTarget
          else generator.targetOf rule.objectRef)
          (generator.meaningOf rule).objectClass (generator.meaningOf rule).permissions]
      else [] := by
  unfold ruleFragment
  by_cases hallow : rule.effect? = some .allow
  · rw [if_pos hallow, if_pos hallow]
    by_cases hcapability : ObjectClass.isCapability (generator.meaningOf rule).objectClass = true
    · rw [if_pos hcapability, if_pos hcapability]
      rfl
    · rw [if_neg hcapability, if_neg hcapability]
      rfl
  · rw [if_neg hallow, if_neg hallow]

/-! ### Changes of type -/

theorem rules_transitionFragment (generator : Generator) (rule : Rule)
    (clause : TransitionClause) :
    (generator.transitionFragment rule clause).rules =
      if clause.isProcess then
        processGrants rule (TypeName.ensureEnding clause.sourceType)
          (generator.transitionTarget rule clause) (TypeName.ensureEnding clause.newType)
      else [] := by
  unfold transitionFragment
  split
  · rfl
  · unfold transitionObject
    split <;> rfl

theorem typeTransitions_transitionFragment (generator : Generator) (rule : Rule)
    (clause : TransitionClause) :
    (generator.transitionFragment rule clause).typeTransitions
      = [generator.typeChangeOf rule clause] := by
  unfold transitionFragment
  split <;> rfl

theorem declared_transitionFragment (generator : Generator) (rule : Rule)
    (clause : TransitionClause) :
    (generator.transitionFragment rule clause).declared =
      if clause.isProcess then [generator.changeOf rule clause] else [] := by
  unfold transitionFragment
  split
  · rfl
  · unfold transitionObject
    split <;> rfl

/-! ### Fragments of tables -/

/-- What a table's fragment has of a kind that no role contributes comes from its rules. -/
theorem mem_flatMap_fragments {α : Type} {part : Fragment → List α}
    (hrole : ∀ role, part (roleFragment role) = []) {x : α} :
    x ∈ (generator.fragments set).flatMap part ↔
      (∃ rule ∈ set.rules, rule.transition = none
          ∧ x ∈ part (generator.ruleFragment (roleAttributes set.roles) rule))
        ∨ ∃ rule ∈ set.rules, ∃ clause, rule.transition = some clause
            ∧ x ∈ part (generator.transitionFragment rule clause) := by
  simp only [List.mem_flatMap, mem_fragments]
  constructor
  · intro hexists
    rcases hexists with ⟨_, ⟨rule, hrule, hnone, rfl⟩ | ⟨role, -, rfl⟩ | ⟨rule, hrule, clause,
        hclause, rfl⟩, hx⟩
    · exact Or.inl ⟨rule, hrule, hnone, hx⟩
    · rw [hrole] at hx
      exact absurd hx List.not_mem_nil
    · exact Or.inr ⟨rule, hrule, clause, hclause, hx⟩
  · intro hcases
    rcases hcases with ⟨rule, hrule, hnone, hx⟩ | ⟨rule, hrule, clause, hclause, hx⟩
    · exact ⟨_, Or.inl ⟨rule, hrule, hnone, rfl⟩, hx⟩
    · exact ⟨_, Or.inr (Or.inr ⟨rule, hrule, clause, hclause, rfl⟩), hx⟩

/-- The rules of a table's fragment are those of its rules. -/
theorem mem_rules_fragment {guarded : GuardedRule} :
    guarded ∈ (generator.fragment set).rules ↔
      (∃ rule ∈ set.rules, rule.transition = none
          ∧ guarded ∈ (generator.ruleFragment (roleAttributes set.roles) rule).rules)
        ∨ ∃ rule ∈ set.rules, ∃ clause, rule.transition = some clause
            ∧ guarded ∈ (generator.transitionFragment rule clause).rules :=
  mem_flatMap_fragments rules_roleFragment

/-- The changes of type of a table's fragment are those of its rules. -/
theorem mem_typeTransitions_fragment {change : TypeTransition} :
    change ∈ (generator.fragment set).typeTransitions ↔
      ∃ rule ∈ set.rules, ∃ clause, rule.transition = some clause
        ∧ generator.typeChangeOf rule clause = change := by
  refine (mem_flatMap_fragments typeTransitions_roleFragment).trans ?_
  simp only [typeTransitions_ruleFragment, typeTransitions_transitionFragment, List.not_mem_nil,
    and_false, exists_false, false_or, List.mem_singleton, @eq_comm _ change]

/-- The declarations of a table's fragment are the changes of domain of its rules. -/
theorem mem_declared_fragment {declared : DeclaredTransition} :
    declared ∈ (generator.fragment set).declared ↔
      ∃ rule ∈ set.rules, ∃ clause, rule.transition = some clause
        ∧ clause.isProcess = true ∧ generator.changeOf rule clause = declared := by
  refine (mem_flatMap_fragments declared_roleFragment).trans ?_
  simp only [declared_ruleFragment, declared_transitionFragment, List.mem_ite_nil_right,
    List.not_mem_nil, and_false, exists_false, false_or, List.mem_singleton, @eq_comm _ declared]

end Generator

end TypeEnforcement
