import TypeEnforcement.Proofs.Policy.MergedForm
import TypeEnforcement.Proofs.Policy.Redundancy
/-!
# What each pass establishes

Each pass of the optimizer establishes a property that none of the later passes destroys, and a
policy that has it is left alone by the pass:

* merging establishes `Policy.IsMerged`;
* elimination establishes `Policy.IsIrredundant`;
* pruning leaves no unused type;
* sorting establishes `Policy.IsSorted`.

`Optimizer.IsNormal` joins those that a setting of the optimizer is to establish.

## Main results

* `Optimizer.isNormal_run`: the result of the optimizer is normal for its setting.
* `Optimizer.run_eq_self`: a policy that is normal for a setting is left alone by it.
* `Optimizer.report_total_eq_zero`: nothing is removed from such a policy.
-/

namespace TypeEnforcement

open Canonical

/-! ## Elimination -/

namespace AllowRule

/-- Where each key has one rule, no rule dominates another. -/
theorem eliminateRedundant_eq_self {rules : List AllowRule} (h : IsMerged rules) :
    eliminateRedundant rules = rules := by
  rw [eliminateRedundant, List.filter_eq_self]
  intro rule hrule
  rw [Bool.not_eq_true', List.any_eq_false]
  intro other hother hdominates
  have hkey := (isCoveredBy_iff.mp (isDominatedBy_iff.mp hdominates).1).1
  have heq := h.eq_of_key_eq hrule hother hkey
  subst heq
  exact not_isDominatedBy_self rule hdominates

end AllowRule

namespace Policy

variable {policy : Policy}

/-- No rule of a block holds without the condition of the block. -/
def IsIrredundant (policy : Policy) : Prop :=
  ∀ block ∈ policy.conditionals, ∀ rule ∈ block.rules, ∀ other ∈ policy.allowRules,
    ¬ rule.isCoveredBy other = true

theorem isIrredundant_eliminateRedundant (policy : Policy) :
    policy.eliminateRedundant.IsIrredundant := by
  intro block hblock rule hrule
  obtain ⟨-, original, -, rfl⟩ := mem_conditionals_eliminateRedundant.mp hblock
  exact (mem_rules_eliminateRedundant.mp hrule).2

theorem rules_eliminateRedundant_sublist (unconditional : List AllowRule)
    (block : ConditionalBlock) :
    (block.eliminateRedundant unconditional).rules.Sublist block.rules :=
  List.filter_sublist.trans (AllowRule.eliminateRedundant_sublist block.rules)

theorem IsMerged.eliminateRedundant (h : policy.IsMerged) :
    policy.eliminateRedundant.IsMerged where
  rules := h.rules.sublist (AllowRule.eliminateRedundant_sublist _)
  blocks := {
    conditions := by
      have hsub := (List.filter_sublist (p := fun block => !block.rules.isEmpty)
        (l := policy.conditionals.map
          (·.eliminateRedundant (AllowRule.eliminateRedundant policy.allowRules)))).map
        (·.condition)
      rw [List.map_map] at hsub
      exact h.blocks.conditions.sublist hsub
    rules := by
      intro block hblock
      obtain ⟨-, original, horiginal, rfl⟩ := mem_conditionals_eliminateRedundant.mp hblock
      exact (h.blocks.rules original horiginal).sublist (rules_eliminateRedundant_sublist _ _)
    nonempty := fun block hblock => (mem_conditionals_eliminateRedundant.mp hblock).1 }
  types := h.types
  contexts := h.contexts

/-- Elimination leaves a merged policy alone that has no redundant rule. -/
theorem eliminateRedundant_eq_self (h : policy.IsMerged) (hfree : policy.IsIrredundant) :
    policy.eliminateRedundant = policy := by
  have hrules := AllowRule.eliminateRedundant_eq_self h.rules
  have hblock : ∀ block ∈ policy.conditionals,
      block.eliminateRedundant (AllowRule.eliminateRedundant policy.allowRules) = block := by
    intro block hblock
    rw [ConditionalBlock.eliminateRedundant, hrules,
      AllowRule.eliminateRedundant_eq_self (h.blocks.rules block hblock)]
    have hkept : block.rules.filter (fun rule => !policy.allowRules.any rule.isCoveredBy)
        = block.rules := by
      rw [List.filter_eq_self]
      intro rule hrule
      rw [Bool.not_eq_true', List.any_eq_false]
      exact hfree block hblock rule hrule
    rw [hkept]
  have hblocks : (policy.conditionals.map (·.eliminateRedundant
      (AllowRule.eliminateRedundant policy.allowRules))).filter
        (fun block => !block.rules.isEmpty) = policy.conditionals := by
    rw [List.map_congr_left hblock, List.map_id', List.filter_eq_self]
    intro block hmem
    simpa using h.blocks.nonempty block hmem
  rw [Policy.eliminateRedundant, hblocks, hrules]

/-! ## Pruning -/

theorem mem_unusedTypes {name : String} :
    name ∈ policy.unusedTypes ↔
      ∃ decl ∈ policy.types, decl.isAmong policy.references = false ∧ decl.name = name := by
  simp only [unusedTypes, mem_ofList, List.mem_map, List.mem_filter, Bool.not_eq_true', and_assoc]

theorem unusedTypes_eq_nil_iff :
    policy.unusedTypes = [] ↔
      ∀ decl ∈ policy.types, decl.isAmong policy.references = true := by
  rw [List.eq_nil_iff_forall_not_mem]
  constructor
  · intro h decl hdecl
    cases hused : decl.isAmong policy.references with
    | true => rfl
    | false => exact absurd (mem_unusedTypes.mpr ⟨decl, hdecl, hused, rfl⟩) (h decl.name)
  · intro h name hname
    obtain ⟨decl, hdecl, hused, -⟩ := mem_unusedTypes.mp hname
    rw [h decl hdecl] at hused
    exact absurd hused (by decide)

/-- Pruning does not change what a policy refers to. -/
theorem references_pruneTypes (policy : Policy) :
    policy.pruneTypes.references = policy.references := rfl

theorem unusedTypes_pruneTypes (policy : Policy) : policy.pruneTypes.unusedTypes = [] := by
  rw [unusedTypes_eq_nil_iff, references_pruneTypes]
  intro decl hdecl
  exact (List.mem_filter.mp hdecl).2

/-- Pruning leaves a policy alone that has no unused type. -/
theorem pruneTypes_eq_self (h : policy.unusedTypes = []) : policy.pruneTypes = policy := by
  have htypes : policy.types.filter (·.isAmong policy.references) = policy.types :=
    List.filter_eq_self.mpr (unusedTypes_eq_nil_iff.mp h)
  have hcontexts : policy.fileContexts.filter (fun entry =>
      !policy.unusedTypes.contains entry.targetType) = policy.fileContexts := by
    rw [List.filter_eq_self, h]
    simp
  simp only [pruneTypes, htypes, hcontexts]

theorem IsMerged.pruneTypes (h : policy.IsMerged) : policy.pruneTypes.IsMerged where
  rules := h.rules
  blocks := h.blocks
  types := h.types.sublist List.filter_sublist
  contexts := StrictlyIncreasing.sublist h.contexts (List.filter_sublist.map FileContext.key)

theorem isAmong_congr {names others : List String} (h : ∀ name, name ∈ names ↔ name ∈ others)
    (decl : TypeDecl) : decl.isAmong names = decl.isAmong others := by
  have hcontains : names.contains = others.contains := by
    funext name
    rw [Bool.eq_iff_iff, List.contains_iff_mem, List.contains_iff_mem, h name]
  rw [TypeDecl.isAmong, TypeDecl.isAmong, hcontains]

/-- Which types are unused depends on the declarations and on the names referred to only. -/
theorem unusedTypes_congr {other : Policy} (htypes : policy.types = other.types)
    (hreferences : ∀ name, name ∈ policy.references ↔ name ∈ other.references) :
    policy.unusedTypes = other.unusedTypes := by
  simp only [unusedTypes, htypes, isAmong_congr hreferences]

/-! ## Sorting -/

/-- The collections that no other pass touches are canonical. -/
structure IsSorted (policy : Policy) : Prop where
  typeTransitions : StrictlyIncreasing policy.typeTransitions
  capabilities : StrictlyIncreasing policy.capabilities
  portBindings : StrictlyIncreasing policy.portBindings
  booleans : StrictlyIncreasing policy.booleans
  domainTransitions : StrictlyIncreasing policy.domainTransitions

theorem isSorted_sortParts (policy : Policy) : policy.sortParts.IsSorted where
  typeTransitions := strictlyIncreasing_ofList _
  capabilities := strictlyIncreasing_ofList _
  portBindings := strictlyIncreasing_ofList _
  booleans := strictlyIncreasing_ofList _
  domainTransitions := strictlyIncreasing_ofList _

theorem sortParts_eq_self (h : policy.IsSorted) : policy.sortParts = policy := by
  simp only [sortParts, ofList_eq_self h.typeTransitions, ofList_eq_self h.capabilities,
    ofList_eq_self h.portBindings, ofList_eq_self h.booleans, ofList_eq_self h.domainTransitions]

theorem IsMerged.sortParts (h : policy.IsMerged) : policy.sortParts.IsMerged where
  rules := h.rules
  blocks := h.blocks
  types := h.types
  contexts := h.contexts

/-- Sorting does not change the names that a policy refers to. -/
theorem mem_references_sortParts {name : String} :
    name ∈ policy.sortParts.references ↔ name ∈ policy.references := by
  simp only [mem_references, sortParts, mem_ofList]
  rfl

theorem unusedTypes_sortParts (policy : Policy) :
    policy.sortParts.unusedTypes = policy.unusedTypes :=
  unusedTypes_congr rfl fun _ => mem_references_sortParts

end Policy

/-! ## Settings -/

namespace Optimizer

variable {optimizer : Optimizer} {policy : Policy}

/-- What a setting of the optimizer is to establish. -/
structure IsNormal (optimizer : Optimizer) (policy : Policy) : Prop where
  merged : policy.IsMerged
  irredundant : optimizer.eliminatesRedundant = true → policy.IsIrredundant
  used : optimizer.prunesTypes = true → policy.unusedTypes = []
  sorted : policy.IsSorted

theorem isMerged_eliminated (optimizer : Optimizer) (policy : Policy) :
    (optimizer.eliminated policy).IsMerged := by
  unfold eliminated
  split
  · exact (isMerged_merged policy).eliminateRedundant
  · exact isMerged_merged policy

theorem isMerged_pruned (optimizer : Optimizer) (policy : Policy) :
    (optimizer.pruned policy).IsMerged := by
  unfold pruned
  split
  · exact (isMerged_eliminated optimizer policy).pruneTypes
  · exact isMerged_eliminated optimizer policy

/-- The result of the optimizer is normal for its setting. -/
theorem isNormal_run (optimizer : Optimizer) (policy : Policy) :
    optimizer.IsNormal (optimizer.run policy) where
  merged := (isMerged_pruned optimizer policy).sortParts
  irredundant := by
    intro heliminates
    have hfree : (optimizer.eliminated policy).IsIrredundant := by
      rw [eliminated, if_pos heliminates]
      exact Policy.isIrredundant_eliminateRedundant _
    unfold run pruned
    split <;> exact hfree
  used := by
    intro hprunes
    rw [run, Policy.unusedTypes_sortParts, pruned, if_pos hprunes]
    exact Policy.unusedTypes_pruneTypes _
  sorted := Policy.isSorted_sortParts _

theorem IsNormal.eliminated_eq_self (h : optimizer.IsNormal policy) :
    optimizer.eliminated policy = policy := by
  rw [eliminated, merged_eq_self h.merged]
  split
  · next heliminates => exact Policy.eliminateRedundant_eq_self h.merged (h.irredundant heliminates)
  · rfl

theorem IsNormal.pruned_eq_self (h : optimizer.IsNormal policy) :
    optimizer.pruned policy = policy := by
  rw [pruned, h.eliminated_eq_self]
  split
  · next hprunes => exact Policy.pruneTypes_eq_self (h.used hprunes)
  · rfl

/-- A policy that is normal for a setting of the optimizer is left alone by it. -/
theorem run_eq_self (h : optimizer.IsNormal policy) : optimizer.run policy = policy := by
  rw [run, h.pruned_eq_self, Policy.sortParts_eq_self h.sorted]

/-- Nothing is removed from a policy that is normal. -/
theorem report_total_eq_zero (h : optimizer.IsNormal policy) :
    (optimizer.report policy).total = 0 := by
  have hunused : (if optimizer.prunesTypes then policy.unusedTypes.length else 0) = 0 := by
    split
    · next hprunes => rw [h.used hprunes, List.length_nil]
    · rfl
  simp only [Report.total, report, merged_eq_self h.merged, h.eliminated_eq_self,
    h.pruned_eq_self, hunused, Nat.sub_self]

end Optimizer

end TypeEnforcement
