import TypeEnforcement.Proofs.Policy.Merging
/-!
# Redundant rules

A rule is covered by another with the same key that has all its permissions, and dominated by one
that has more. A dominator may itself be dropped, but domination is a strict order, so a chain of
dominators in a list ends, and what it ends with is kept: `AllowRule.exists_cover`. Rules of blocks
may also be covered by unconditional ones. In all, each rule of a policy has a cover that is left in
force wherever the rule was: `Policy.exists_cover_of_mem_block`.

## Main results

* `AllowRule.exists_cover`: elimination leaves a cover of each rule of a list.
* `Policy.mem_grants_eliminateRedundant`: elimination does not change what a policy grants.
* `Policy.isCoveredBy_eliminateRedundant`: elimination leaves covers of all rules of a policy.
* `Policy.mem_references_eliminateRedundant`: elimination does not change the names that a policy
  refers to.
-/

namespace TypeEnforcement

namespace AllowRule

/-! ## Cover and domination -/

theorem isCoveredBy_iff {rule other : AllowRule} :
    rule.isCoveredBy other = true ↔
      rule.key = other.key ∧ ∀ permission ∈ rule.permissions, permission ∈ other.permissions := by
  simp only [isCoveredBy, Bool.and_eq_true, beq_iff_eq, List.all_eq_true, List.contains_iff_mem]

theorem isCoveredBy_refl (rule : AllowRule) : rule.isCoveredBy rule = true :=
  isCoveredBy_iff.mpr ⟨rfl, fun _ hmem => hmem⟩

theorem isCoveredBy_trans {first second third : AllowRule} (h : first.isCoveredBy second = true)
    (h' : second.isCoveredBy third = true) : first.isCoveredBy third = true := by
  rw [isCoveredBy_iff] at h h' ⊢
  exact ⟨h.1.trans h'.1, fun permission hmem => h'.2 permission (h.2 permission hmem)⟩

theorem sides_eq_of_isCoveredBy {rule other : AllowRule} (h : rule.isCoveredBy other = true) :
    rule.source = other.source ∧ rule.target = other.target
      ∧ rule.objectClass = other.objectClass := by
  have hkey := (isCoveredBy_iff.mp h).1
  simpa only [key, AccessKey.mk.injEq] using hkey

/-- What a rule gives, its cover gives. -/
theorem mem_accesses_of_isCoveredBy {rule other : AllowRule} (h : rule.isCoveredBy other = true)
    {access : Access} (haccess : access ∈ rule.accesses) : access ∈ other.accesses := by
  obtain ⟨hkey, hpermissions⟩ := isCoveredBy_iff.mp h
  simp only [key, AccessKey.mk.injEq] at hkey
  obtain ⟨hsource, htarget, hclass, hmem⟩ := mem_accesses.mp haccess
  exact mem_accesses.mpr ⟨hkey.1 ▸ hsource, hkey.2.1 ▸ htarget, hkey.2.2 ▸ hclass,
    hpermissions access.permission hmem⟩

theorem isDominatedBy_iff {rule other : AllowRule} :
    rule.isDominatedBy other = true ↔
      rule.isCoveredBy other = true ∧ ¬ other.isCoveredBy rule = true := by
  simp only [isDominatedBy, Bool.and_eq_true, Bool.not_eq_true', Bool.not_eq_true]

theorem not_isDominatedBy_self (rule : AllowRule) : ¬ rule.isDominatedBy rule = true :=
  fun h => (isDominatedBy_iff.mp h).2 (isCoveredBy_refl rule)

theorem isDominatedBy_trans {first second third : AllowRule}
    (h : first.isDominatedBy second = true) (h' : second.isDominatedBy third = true) :
    first.isDominatedBy third = true := by
  rw [isDominatedBy_iff] at h h' ⊢
  exact ⟨isCoveredBy_trans h.1 h'.1, fun hback => h'.2 (isCoveredBy_trans hback h.1)⟩

/-! ## Elimination from a list -/

theorem mem_eliminateRedundant {rule : AllowRule} {rules : List AllowRule} :
    rule ∈ eliminateRedundant rules ↔
      rule ∈ rules ∧ ∀ other ∈ rules, ¬ rule.isDominatedBy other = true := by
  simp only [eliminateRedundant, List.mem_filter, Bool.not_eq_true', List.any_eq_false]

theorem eliminateRedundant_sublist (rules : List AllowRule) :
    (eliminateRedundant rules).Sublist rules :=
  List.filter_sublist

/-- A rule that is dropped has a dominator. -/
theorem exists_dominator {rule : AllowRule} {rules : List AllowRule} (hrule : rule ∈ rules)
    (hdropped : rule ∉ eliminateRedundant rules) :
    ∃ other ∈ rules, rule.isDominatedBy other = true := by
  rw [mem_eliminateRedundant] at hdropped
  simpa [hrule] using hdropped

/-- A dominator has fewer dominators. -/
theorem length_dominators_lt {rules : List AllowRule} {rule other : AllowRule}
    (hother : other ∈ rules) (h : rule.isDominatedBy other = true) :
    (rules.filter other.isDominatedBy).length < (rules.filter rule.isDominatedBy).length := by
  have hnested : (rules.filter rule.isDominatedBy).filter other.isDominatedBy
      = rules.filter other.isDominatedBy := by
    rw [List.filter_filter]
    refine List.filter_congr ?_
    intro third _
    by_cases hthird : other.isDominatedBy third = true
    · simp [hthird, isDominatedBy_trans h hthird]
    · simp [hthird]
  rw [← hnested, List.length_filter_lt_length_iff_exists]
  exact ⟨other, List.mem_filter.mpr ⟨hother, h⟩, not_isDominatedBy_self other⟩

/-- Elimination leaves a cover of each rule of a list. -/
theorem exists_cover {rules : List AllowRule} {rule : AllowRule} (hrule : rule ∈ rules) :
    ∃ kept ∈ eliminateRedundant rules, rule.isCoveredBy kept = true := by
  -- The induction is on the number of dominators, which is less for a dominator.
  induction hcount : (rules.filter rule.isDominatedBy).length using Nat.strongRecOn
    generalizing rule with
  | ind count ih =>
    by_cases hkept : rule ∈ eliminateRedundant rules
    · exact ⟨rule, hkept, isCoveredBy_refl rule⟩
    · obtain ⟨other, hother, hdominates⟩ := exists_dominator hrule hkept
      obtain ⟨kept, hmem, hcovers⟩ :=
        ih _ (hcount ▸ length_dominators_lt hother hdominates) hother rfl
      exact ⟨kept, hmem, isCoveredBy_trans (isDominatedBy_iff.mp hdominates).1 hcovers⟩

end AllowRule

/-! ## Elimination from a policy -/

namespace Policy

open AllowRule (isCoveredBy_iff)

variable {policy : Policy}

theorem mem_rules_eliminateRedundant {unconditional : List AllowRule} {block : ConditionalBlock}
    {rule : AllowRule} :
    rule ∈ (block.eliminateRedundant unconditional).rules ↔
      rule ∈ AllowRule.eliminateRedundant block.rules
        ∧ ∀ other ∈ unconditional, ¬ rule.isCoveredBy other = true := by
  simp only [ConditionalBlock.eliminateRedundant, List.mem_filter, Bool.not_eq_true',
    List.any_eq_false]

theorem mem_conditionals_eliminateRedundant {block : ConditionalBlock} :
    block ∈ policy.eliminateRedundant.conditionals ↔
      block.rules ≠ [] ∧ ∃ original ∈ policy.conditionals,
        original.eliminateRedundant (AllowRule.eliminateRedundant policy.allowRules) = block := by
  simp only [eliminateRedundant, List.mem_filter, List.mem_map, Bool.not_eq_true',
    List.isEmpty_eq_false_iff, ne_eq]
  exact And.comm

/-- A block that is left is a part of a block with its condition. -/
theorem exists_original_block {block : ConditionalBlock}
    (hblock : block ∈ policy.eliminateRedundant.conditionals) :
    ∃ original ∈ policy.conditionals, original.condition = block.condition
      ∧ ∀ rule ∈ block.rules, rule ∈ original.rules := by
  obtain ⟨-, original, horiginal, rfl⟩ := mem_conditionals_eliminateRedundant.mp hblock
  refine ⟨original, horiginal, rfl, ?_⟩
  intro rule hrule
  exact (AllowRule.eliminateRedundant_sublist original.rules).mem
    (mem_rules_eliminateRedundant.mp hrule).1

/-- Elimination leaves a cover of each rule of a block: an unconditional one, or one with the
condition of the block. -/
theorem exists_cover_of_mem_block {block : ConditionalBlock} (hblock : block ∈ policy.conditionals)
    {rule : AllowRule} (hrule : rule ∈ block.rules) :
    ∃ kept, rule.isCoveredBy kept = true
      ∧ (kept ∈ policy.eliminateRedundant.allowRules
        ∨ ∃ left ∈ policy.eliminateRedundant.conditionals,
            left.condition = block.condition ∧ kept ∈ left.rules) := by
  obtain ⟨inBlock, hinBlock, hcovers⟩ := AllowRule.exists_cover hrule
  by_cases hfree : ∃ other ∈ policy.eliminateRedundant.allowRules,
      inBlock.isCoveredBy other = true
  · obtain ⟨other, hother, hcovers'⟩ := hfree
    exact ⟨other, AllowRule.isCoveredBy_trans hcovers hcovers', Or.inl hother⟩
  · have hleft : inBlock ∈ (block.eliminateRedundant
        (AllowRule.eliminateRedundant policy.allowRules)).rules := by
      refine mem_rules_eliminateRedundant.mpr ⟨hinBlock, ?_⟩
      intro other hother hcovers'
      exact hfree ⟨other, hother, hcovers'⟩
    refine ⟨inBlock, hcovers, Or.inr ⟨block.eliminateRedundant
      (AllowRule.eliminateRedundant policy.allowRules), ?_, rfl, hleft⟩⟩
    exact mem_conditionals_eliminateRedundant.mpr
      ⟨List.ne_nil_of_mem hleft, block, hblock, rfl⟩

/-- Elimination does not change what a policy grants. -/
theorem mem_grants_eliminateRedundant {values : String → Bool} {access : Access} :
    access ∈ policy.eliminateRedundant.grants values ↔ access ∈ policy.grants values := by
  simp only [mem_grants, mem_activeRules]
  constructor
  · intro hexists
    rcases hexists with ⟨rule, hrule | ⟨block, hblock, hholds, hrule⟩, haccess⟩
    · exact ⟨rule, Or.inl ((AllowRule.eliminateRedundant_sublist _).mem hrule), haccess⟩
    · obtain ⟨original, horiginal, hcondition, hpart⟩ := exists_original_block hblock
      exact ⟨rule, Or.inr ⟨original, horiginal, hcondition ▸ hholds, hpart rule hrule⟩, haccess⟩
  · intro hexists
    rcases hexists with ⟨rule, hrule | ⟨block, hblock, hholds, hrule⟩, haccess⟩
    · obtain ⟨kept, hkept, hcovers⟩ := AllowRule.exists_cover hrule
      exact ⟨kept, Or.inl hkept, AllowRule.mem_accesses_of_isCoveredBy hcovers haccess⟩
    · obtain ⟨kept, hcovers, hkept⟩ := exists_cover_of_mem_block hblock hrule
      refine ⟨kept, ?_, AllowRule.mem_accesses_of_isCoveredBy hcovers haccess⟩
      rcases hkept with hkept | ⟨left, hleft, hcondition, hkept⟩
      · exact Or.inl hkept
      · exact Or.inr ⟨left, hleft, hcondition ▸ hholds, hkept⟩

/-! ## Names -/

/-- The rules of a policy, whatever their condition. -/
def allRules (policy : Policy) : List AllowRule :=
  policy.allowRules ++ policy.conditionalRules

theorem mem_allRules {rule : AllowRule} :
    rule ∈ policy.allRules ↔
      rule ∈ policy.allowRules ∨ ∃ block ∈ policy.conditionals, rule ∈ block.rules := by
  simp only [allRules, conditionalRules, List.mem_append, List.mem_flatMap]

/-- Whether the rules of a policy have covers in another, whose rules cover some of the policy. -/
structure IsCoveredBy (policy other : Policy) : Prop where
  cover : ∀ rule ∈ policy.allRules, ∃ kept ∈ other.allRules, rule.isCoveredBy kept = true
  original : ∀ kept ∈ other.allRules, ∃ rule ∈ policy.allRules, rule.isCoveredBy kept = true

theorem IsCoveredBy.trans {other third : Policy} (h : policy.IsCoveredBy other)
    (h' : other.IsCoveredBy third) : policy.IsCoveredBy third where
  cover := by
    intro rule hrule
    obtain ⟨between, hbetween, hcovers⟩ := h.cover rule hrule
    obtain ⟨kept, hkept, hcovers'⟩ := h'.cover between hbetween
    exact ⟨kept, hkept, AllowRule.isCoveredBy_trans hcovers hcovers'⟩
  original := by
    intro kept hkept
    obtain ⟨between, hbetween, hcovers'⟩ := h'.original kept hkept
    obtain ⟨rule, hrule, hcovers⟩ := h.original between hbetween
    exact ⟨rule, hrule, AllowRule.isCoveredBy_trans hcovers hcovers'⟩

/-- Elimination leaves a cover of each rule of a policy, and only rules of the policy. -/
theorem isCoveredBy_eliminateRedundant (policy : Policy) :
    policy.IsCoveredBy policy.eliminateRedundant where
  cover := by
    intro rule hrule
    rcases mem_allRules.mp hrule with hrule | ⟨block, hblock, hrule⟩
    · obtain ⟨kept, hkept, hcovers⟩ := AllowRule.exists_cover hrule
      exact ⟨kept, mem_allRules.mpr (Or.inl hkept), hcovers⟩
    · obtain ⟨kept, hcovers, hkept⟩ := exists_cover_of_mem_block hblock hrule
      refine ⟨kept, mem_allRules.mpr ?_, hcovers⟩
      rcases hkept with hkept | ⟨left, hleft, -, hkept⟩
      · exact Or.inl hkept
      · exact Or.inr ⟨left, hleft, hkept⟩
  original := by
    intro kept hkept
    refine ⟨kept, ?_, AllowRule.isCoveredBy_refl kept⟩
    rw [mem_allRules] at hkept ⊢
    rcases hkept with hkept | ⟨block, hblock, hkept⟩
    · exact Or.inl ((AllowRule.eliminateRedundant_sublist _).mem hkept)
    · obtain ⟨original, horiginal, -, hpart⟩ := exists_original_block hblock
      exact Or.inr ⟨original, horiginal, hpart kept hkept⟩

theorem mentions_iff {transition : TypeTransition} {name : String} :
    transition.mentions name = true ↔
      name = transition.source ∨ name = transition.target ∨ name = transition.newType := by
  simp only [TypeTransition.mentions, Bool.or_eq_true, beq_iff_eq, or_assoc, @eq_comm _ name]

/-- A policy refers to the source and target of its rules, to the three types of a change of type,
and to the types of ports. -/
theorem mem_references {name : String} :
    name ∈ policy.references ↔
      (∃ rule ∈ policy.allRules, name = rule.source ∨ name = rule.target)
        ∨ (∃ transition ∈ policy.typeTransitions, transition.mentions name = true)
        ∨ ∃ binding ∈ policy.portBindings, binding.typeName = name := by
  simp only [references, allRules, List.mem_append, List.mem_flatMap, List.mem_map,
    List.mem_cons, List.not_mem_nil, or_false, mentions_iff, or_assoc]

/-- A rule and its cover have the same source and target, so the names that a policy refers to stay
the same with covers of its rules. -/
theorem IsCoveredBy.mem_references_iff {other : Policy} {name : String}
    (h : policy.IsCoveredBy other)
    (htransitions : other.typeTransitions = policy.typeTransitions)
    (hports : other.portBindings = policy.portBindings) :
    name ∈ other.references ↔ name ∈ policy.references := by
  have hrules : (∃ rule ∈ other.allRules, name = rule.source ∨ name = rule.target)
      ↔ ∃ rule ∈ policy.allRules, name = rule.source ∨ name = rule.target := by
    constructor
    · intro hexists
      obtain ⟨kept, hkept, hname⟩ := hexists
      obtain ⟨rule, hrule, hcovers⟩ := h.original kept hkept
      obtain ⟨hsource, htarget, -⟩ := AllowRule.sides_eq_of_isCoveredBy hcovers
      exact ⟨rule, hrule, hsource ▸ htarget ▸ hname⟩
    · intro hexists
      obtain ⟨rule, hrule, hname⟩ := hexists
      obtain ⟨kept, hkept, hcovers⟩ := h.cover rule hrule
      obtain ⟨hsource, htarget, -⟩ := AllowRule.sides_eq_of_isCoveredBy hcovers
      exact ⟨kept, hkept, hsource ▸ htarget ▸ hname⟩
  rw [mem_references, mem_references, hrules, htransitions, hports]

/-- Elimination does not change the names that a policy refers to. -/
theorem mem_references_eliminateRedundant {name : String} :
    name ∈ policy.eliminateRedundant.references ↔ name ∈ policy.references :=
  (isCoveredBy_eliminateRedundant policy).mem_references_iff rfl rfl

end Policy

end TypeEnforcement
