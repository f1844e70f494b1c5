import TypeEnforcement.Proofs.Generation.Grants
import TypeEnforcement.Proofs.Generation.Labels
/-!
# Capabilities of a generated policy

A rule on capabilities contributes to a policy twice: its capabilities go to the list of the policy,
which knows no conditions, and an allow rule on the domain itself goes where the condition of the
rule puts it. Nothing else contributes to either, so a listed capability is backed while one of the
rules that list it is in force, and only then.

## Main results

* `Generator.mem_capabilities_generate`: the capabilities that a generated policy lists.
* `Generator.backs_generate_iff`: when a generated policy backs a capability.
-/

namespace TypeEnforcement

/-! ## Capabilities that are backed -/

/-- Whether a policy gives a domain a capability for given values of the booleans: some rule in
force on the domain itself, of a class of capabilities, has it among its permissions. -/
def Policy.Backs (policy : Policy) (values : String → Bool) (grant : CapabilityGrant) : Prop :=
  ∃ allow ∈ policy.activeRules values,
    allow.source = grant.domain ∧ allow.target = AllowRule.selfTarget
      ∧ ObjectClass.isCapability allow.objectClass = true
      ∧ grant.capability ∈ allow.permissions

instance (policy : Policy) (values : String → Bool) (grant : CapabilityGrant) :
    Decidable (policy.Backs values grant) :=
  inferInstanceAs (Decidable (∃ allow ∈ policy.activeRules values, _))

namespace CapabilityGrant

/-- The access that a capability of a class is. -/
def access (grant : CapabilityGrant) (objectClass : String) : Access where
  source := grant.domain
  target := AllowRule.selfTarget
  objectClass
  permission := grant.capability

end CapabilityGrant

/-- A capability is backed if the policy grants it as one of some class. -/
theorem Policy.backs_iff {policy : Policy} {values : String → Bool} {grant : CapabilityGrant} :
    policy.Backs values grant ↔
      ∃ objectClass, ObjectClass.isCapability objectClass = true
        ∧ grant.access objectClass ∈ policy.grants values := by
  simp only [Backs, mem_grants, AllowRule.mem_accesses]
  constructor
  · intro hexists
    obtain ⟨allow, hallow, hsource, htarget, hclass, hmem⟩ := hexists
    exact ⟨allow.objectClass, hclass, allow, hallow, hsource, htarget, rfl, hmem⟩
  · intro hexists
    obtain ⟨objectClass, hclass, allow, hallow, hsource, htarget, heq, hmem⟩ := hexists
    have hsame : allow.objectClass = objectClass := heq
    exact ⟨allow, hallow, hsource, htarget, hsame ▸ hclass, hmem⟩

namespace Generator

open GuardedRule (Grant)

variable {generator : Generator} {set : RuleSet} {rule : Rule} {clause : TransitionClause}
  {values : String → Bool} {access : Access} {grant : CapabilityGrant}

/-! ## Rules that list a capability -/

/-- Whether a rule lists a capability: it allows, and its action stands for the capability. -/
def ListsCapability (generator : Generator) (rule : Rule) (grant : CapabilityGrant) : Prop :=
  rule.effect? = some .allow
    ∧ ObjectClass.isCapability (generator.meaningOf rule).objectClass = true
    ∧ domainOf rule.subject = grant.domain
    ∧ grant.capability ∈ (generator.meaningOf rule).permissions

theorem capabilities_objectFragment (generator : Generator) (attributes : List String) (rule : Rule)
    (objectClass : String) :
    (generator.objectFragment attributes rule objectClass).capabilities = [] := by
  unfold objectFragment
  split <;> rfl

theorem mem_capabilities_ruleFragment {attributes : List String} :
    grant ∈ (generator.ruleFragment attributes rule).capabilities ↔
      generator.ListsCapability rule grant := by
  unfold ruleFragment ListsCapability
  by_cases hallow : rule.effect? = some .allow
  · rw [if_pos hallow, and_iff_right hallow]
    by_cases hclass : ObjectClass.isCapability (generator.meaningOf rule).objectClass = true
    · rw [if_pos hclass, and_iff_right hclass]
      show grant ∈ (generator.meaningOf rule).permissions.map _ ↔ _
      rw [List.mem_map]
      constructor
      · intro hexists
        obtain ⟨capability, hmem, heq⟩ := hexists
        rw [← heq]
        exact ⟨rfl, hmem⟩
      · intro hboth
        exact ⟨grant.capability, hboth.2, by rw [hboth.1]⟩
    · rw [if_neg hclass]
      show grant ∈ (generator.objectFragment attributes rule _).capabilities ↔ _
      rw [capabilities_objectFragment]
      exact ⟨fun hmem => absurd hmem List.not_mem_nil, fun hboth => absurd hboth.1 hclass⟩
  · rw [if_neg hallow]
    exact ⟨fun hmem => absurd hmem List.not_mem_nil, fun hboth => absurd hboth.1 hallow⟩

theorem capabilities_roleFragment (role : Role) : (roleFragment role).capabilities = [] :=
  congrArg Fragment.capabilities (roleFragment_eq role)

theorem capabilities_transitionFragment (generator : Generator) (rule : Rule)
    (clause : TransitionClause) : (generator.transitionFragment rule clause).capabilities = [] := by
  have hobject : (generator.transitionObject rule).capabilities = [] := by
    unfold transitionObject
    split <;> rfl
  unfold transitionFragment
  split <;> exact hobject

/-- A generated policy lists the capabilities that the rules of its table list, whatever their
conditions. -/
theorem mem_capabilities_generate :
    grant ∈ (generator.generate set).capabilities ↔
      ∃ rule ∈ set.rules, generator.ListsCapability rule grant := by
  refine (mem_flatMap_fragments capabilities_roleFragment).trans ?_
  simp only [mem_capabilities_ruleFragment, capabilities_transitionFragment, List.not_mem_nil,
    and_false, exists_false, or_false]
  refine exists_congr fun rule => and_congr_right fun _ => ?_
  exact ⟨fun hboth => hboth.2, fun hlists => ⟨transition_eq_none hlists.1, hlists⟩⟩

/-! ## Rules that back a capability -/

/-- No change of domain needs a capability. -/
theorem isCapability_of_mem_rulesFor {declared : DeclaredTransition} {allow : AllowRule}
    (hallow : allow ∈ Inference.rulesFor declared) :
    ObjectClass.isCapability allow.objectClass = false := by
  simp only [Inference.rulesFor, List.mem_cons, List.not_mem_nil, or_false] at hallow
  rcases hallow with rfl | rfl | rfl | rfl | rfl <;> rfl

theorem isCapability_of_mem_declaredAccesses {source entryPoint newDomain : String}
    (haccess : access ∈ declaredAccesses source entryPoint newDomain) :
    ObjectClass.isCapability access.objectClass = false := by
  simp only [declaredAccesses, List.mem_cons, List.not_mem_nil, or_false] at haccess
  rcases haccess with rfl | rfl | rfl <;> rfl

/-- What an allow rule says of a capability: it gives it exactly if it lists it. -/
theorem access_mem_ruleAccesses_iff (hnone : rule.transition = none) {objectClass : String}
    (hclass : ObjectClass.isCapability objectClass = true) :
    grant.access objectClass ∈ generator.ruleAccesses rule ↔
      generator.ListsCapability rule grant
        ∧ (generator.meaningOf rule).objectClass = objectClass := by
  have haccesses : generator.ruleAccesses rule
      = if rule.effect = "allow" then generator.allowedAccesses rule else [] := by
    rw [ruleAccesses, hnone]
  rw [haccesses, ListsCapability, effect?_eq_allow_iff hnone]
  by_cases hallow : rule.effect = "allow"
  · rw [if_pos hallow, and_iff_right hallow, allowedAccesses_eq]
    simp only [List.mem_map, CapabilityGrant.access, Access.mk.injEq]
    constructor
    · intro hexists
      obtain ⟨permission, hmem, hsource, -, hsame, heq⟩ := hexists
      exact ⟨⟨hsame ▸ hclass, hsource, heq ▸ hmem⟩, hsame⟩
    · intro hboth
      obtain ⟨⟨hcapability, hsource, hmem⟩, hsame⟩ := hboth
      exact ⟨grant.capability, hmem, hsource, if_pos hcapability, hsame, rfl⟩
  · rw [if_neg hallow]
    exact ⟨fun hmem => absurd hmem List.not_mem_nil, fun hboth => absurd hboth.1.1 hallow⟩

/-- A generated policy backs a capability while a rule that lists it is in force. -/
theorem backs_generate_iff :
    (generator.generate set).Backs values grant ↔
      ∃ rule ∈ set.rules, generator.ListsCapability rule grant
        ∧ rule.isActive values = true := by
  have hgrants : ∀ objectClass, grant.access objectClass ∈ (generator.generate set).grants values ↔
      Grant values (generator.fragment set).rules (grant.access objectClass)
        ∨ Grant values (generator.inference (generator.fragment set)).rules
            (grant.access objectClass) :=
    fun _ => Fragment.mem_grants_toPolicy.trans GuardedRule.grant_append
  rw [Policy.backs_iff]
  constructor
  · intro hexists
    obtain ⟨objectClass, hclass, haccess⟩ := hexists
    rcases (hgrants objectClass).mp haccess with ⟨guarded, hguarded, hactive, hmem⟩ | hinferred
    · rcases mem_rules_fragment.mp hguarded with ⟨rule, hrule, hnone, hown⟩
        | ⟨rule, -, clause, -, hown⟩
      · obtain ⟨hinForce, hsays⟩ :=
          (grant_ruleFragment hnone _).mp ⟨guarded, hown, hactive, hmem⟩
        have hlists := (access_mem_ruleAccesses_iff hnone hclass).mp hsays
        exact ⟨rule, hrule, hlists.1, hinForce⟩
      · obtain ⟨-, -, hdeclared⟩ := grant_transitionFragment.mp ⟨guarded, hown, hactive, hmem⟩
        have hother : ObjectClass.isCapability objectClass = false :=
          isCapability_of_mem_declaredAccesses hdeclared
        rw [hclass] at hother
        cases hother
    · obtain ⟨_, -, _, -, -, -, -, -, -, allow, hallow, hmem⟩ := grant_inference.mp hinferred
      have hother := isCapability_of_mem_rulesFor hallow
      have hsame : allow.objectClass = objectClass := (AllowRule.mem_accesses.mp hmem).2.2.1
      rw [hsame, hclass] at hother
      cases hother
  · intro hexists
    obtain ⟨rule, hrule, hlists, hactive⟩ := hexists
    have hnone : rule.transition = none := transition_eq_none hlists.1
    have hclass := hlists.2.1
    have hsays := (access_mem_ruleAccesses_iff hnone hclass).mpr ⟨hlists, rfl⟩
    obtain ⟨guarded, hown, hinForce, hmem⟩ :=
      (grant_ruleFragment hnone (roleAttributes set.roles)).mpr ⟨hactive, hsays⟩
    have hguarded : guarded ∈ (generator.fragment set).rules :=
      mem_rules_fragment.mpr (Or.inl ⟨rule, hrule, hnone, hown⟩)
    exact ⟨_, hclass, (hgrants _).mpr (Or.inl ⟨guarded, hguarded, hinForce, hmem⟩)⟩

end Generator

end TypeEnforcement
