import Mathlib.Algebra.Order.BigOperators.Group.List
import Mathlib.Algebra.Order.Group.Nat
import Mathlib.Data.List.Flatten
import TypeEnforcement.Proofs.Policy.Survival
/-!
# What the report counts

No pass makes a collection longer, so none of the differences that the report takes is cut off at
zero, and together they are what the policy has more than its normal form. For blocks this takes an
argument, since merging moves rules from block to block: each rule of a block counts under one
condition only, so the rules under different conditions are together no more than all rules
(`ConditionalBlock.length_flatMap_rulesUnder_le`). Types are counted by name where they are pruned
and by declaration elsewhere, which is the same once each name is declared once.

## Main result

* `Optimizer.report_reconciles`: what is left and what the report counts make up what there was.
-/

namespace TypeEnforcement

open Canonical

/-! ## Merging -/

theorem AllowRule.length_merge_le (rules : List AllowRule) :
    (merge rules).length ≤ rules.length := by
  rw [merge, List.length_map]
  exact length_ofList_map_le key rules

theorem TypeDecl.length_merge_le (decls : List TypeDecl) :
    (merge decls).length ≤ decls.length := by
  rw [merge, List.length_map]
  exact length_ofList_map_le (·.name) decls

theorem FileContext.length_merge_le (entries : List FileContext) :
    (merge entries).length ≤ entries.length :=
  (List.length_filterMap_le _ _).trans (length_ofList_map_le key entries)

namespace ConditionalBlock

/-- The blocks that have no rule may be left out. -/
theorem flatMap_rules_filter (blocks : List ConditionalBlock) :
    (blocks.filter fun block => !block.rules.isEmpty).flatMap (·.rules)
      = blocks.flatMap (·.rules) := by
  induction blocks with
  | nil => rfl
  | cons block blocks ih =>
    rw [List.filter_cons]
    split
    · rw [List.flatMap_cons, ih, List.flatMap_cons]
    · next hempty =>
      have hnil : block.rules = [] := by simpa using hempty
      rw [ih, List.flatMap_cons, hnil, List.nil_append]

/-- The blocks that do not have a condition. -/
def without (condition : Condition) (blocks : List ConditionalBlock) : List ConditionalBlock :=
  blocks.filter fun block => !(block.condition == condition)

theorem rulesUnder_without {condition other : Condition} (h : other ≠ condition)
    (blocks : List ConditionalBlock) :
    rulesUnder other (without condition blocks) = rulesUnder other blocks := by
  rw [rulesUnder, rulesUnder, without, List.filter_filter]
  refine congrArg (List.flatMap _) (List.filter_congr fun block _ => ?_)
  by_cases heq : block.condition = other
  · simp [heq, h]
  · simp [heq]

/-- Each rule stands under a condition or in a block with another one. -/
theorem length_rulesUnder_add (condition : Condition) (blocks : List ConditionalBlock) :
    (rulesUnder condition blocks).length + ((without condition blocks).flatMap (·.rules)).length
      = (blocks.flatMap (·.rules)).length := by
  have hsplit := (List.filter_append_perm (·.condition == condition) blocks).flatMap_right
    (·.rules)
  rw [List.flatMap_append] at hsplit
  rw [← hsplit.length_eq, List.length_append, rulesUnder, without]

/-- The rules under different conditions are at most all rules. -/
theorem length_flatMap_rulesUnder_le {conditions : List Condition} (h : conditions.Nodup)
    (blocks : List ConditionalBlock) :
    (conditions.flatMap (rulesUnder · blocks)).length ≤ (blocks.flatMap (·.rules)).length := by
  -- The blocks of one condition are taken out, and the others are left to the other conditions.
  induction conditions generalizing blocks with
  | nil => exact Nat.zero_le _
  | cons condition conditions ih =>
    obtain ⟨hfresh, hnodup⟩ := List.nodup_cons.mp h
    have hothers : ∀ other ∈ conditions,
        rulesUnder other blocks = rulesUnder other (without condition blocks) := by
      intro other hother
      have hne : other ≠ condition := fun heq => hfresh (heq ▸ hother)
      exact (rulesUnder_without hne blocks).symm
    calc ((condition :: conditions).flatMap (rulesUnder · blocks)).length
        = (rulesUnder condition blocks).length
            + (conditions.flatMap (rulesUnder · (without condition blocks))).length := by
          rw [List.flatMap_cons, List.length_append, List.flatMap_congr hothers]
      _ ≤ (rulesUnder condition blocks).length
            + ((without condition blocks).flatMap (·.rules)).length :=
          Nat.add_le_add_left (ih hnodup _) _
      _ = (blocks.flatMap (·.rules)).length := length_rulesUnder_add condition blocks

theorem length_rules_merge_le (blocks : List ConditionalBlock) :
    ((merge blocks).flatMap (·.rules)).length ≤ (blocks.flatMap (·.rules)).length := by
  calc ((merge blocks).flatMap (·.rules)).length
      = ((ofList (blocks.map (·.condition))).flatMap
          fun condition => AllowRule.merge (rulesUnder condition blocks)).length := by
        rw [merge, flatMap_rules_filter, List.flatMap_map]
        rfl
    _ ≤ ((ofList (blocks.map (·.condition))).flatMap (rulesUnder · blocks)).length := by
        rw [List.length_flatMap, List.length_flatMap]
        exact List.sum_le_sum fun condition _ => AllowRule.length_merge_le _
    _ ≤ (blocks.flatMap (·.rules)).length :=
        length_flatMap_rulesUnder_le (strictlyIncreasing_ofList _).nodup blocks

end ConditionalBlock

/-! ## Passes -/

namespace Policy

theorem allowCount_mergeRules_le (policy : Policy) :
    policy.mergeRules.allowCount ≤ policy.allowCount :=
  Nat.add_le_add (AllowRule.length_merge_le policy.allowRules)
    (ConditionalBlock.length_rules_merge_le policy.conditionals)

theorem conditionalRules_eliminateRedundant_sublist (policy : Policy) :
    policy.eliminateRedundant.conditionalRules.Sublist policy.conditionalRules := by
  rw [conditionalRules, eliminateRedundant, ConditionalBlock.flatMap_rules_filter,
    List.flatMap_map, conditionalRules]
  exact List.Sublist.flatMap_right _ fun block _ => rules_eliminateRedundant_sublist _ block

theorem allowCount_eliminateRedundant_le (policy : Policy) :
    policy.eliminateRedundant.allowCount ≤ policy.allowCount :=
  Nat.add_le_add (AllowRule.eliminateRedundant_sublist policy.allowRules).length_le
    (conditionalRules_eliminateRedundant_sublist policy).length_le

/-- Where each type is declared once, the declarations that pruning drops are as many as the names
of unused types. -/
theorem length_types_pruneTypes (policy : Policy) (h : policy.IsMerged) :
    policy.pruneTypes.types.length + policy.unusedTypes.length = policy.types.length := by
  have hnames : StrictlyIncreasing
      ((policy.types.filter (! ·.isAmong policy.references)).map (·.name)) :=
    h.types.names.sublist (List.filter_sublist.map _)
  have hsplit := (List.filter_append_perm (·.isAmong policy.references) policy.types).length_eq
  rw [List.length_append] at hsplit
  rw [unusedTypes, ofList_eq_self hnames, List.length_map]
  exact hsplit

end Policy

namespace Optimizer

variable {optimizer : Optimizer} {policy : Policy}

/-- The numbers that the report takes differences of: none is less than the one that is taken from
it. -/
structure Shrinks (optimizer : Optimizer) (policy : Policy) : Prop where
  mergedRules : (merged policy).allowCount ≤ policy.allowCount
  duplicateTypes : (merged policy).types.length ≤ policy.types.length
  duplicateFileContexts : (merged policy).fileContexts.length ≤ policy.fileContexts.length
  redundantRules : (optimizer.eliminated policy).allowCount ≤ (merged policy).allowCount
  orphanedFileContexts :
    (optimizer.pruned policy).fileContexts.length
      ≤ (optimizer.eliminated policy).fileContexts.length

theorem shrinks (optimizer : Optimizer) (policy : Policy) : optimizer.Shrinks policy where
  mergedRules := Policy.allowCount_mergeRules_le policy
  duplicateTypes := TypeDecl.length_merge_le policy.types
  duplicateFileContexts := FileContext.length_merge_le policy.fileContexts
  redundantRules := by
    unfold eliminated
    split
    · exact Policy.allowCount_eliminateRedundant_le _
    · exact Nat.le_refl _
  orphanedFileContexts := by
    unfold pruned
    split
    · exact List.length_filter_le _ _
    · exact Nat.le_refl _

theorem allowCount_run (optimizer : Optimizer) (policy : Policy) :
    (optimizer.run policy).allowCount = (optimizer.eliminated policy).allowCount := by
  simp only [Policy.allowCount, Policy.conditionalRules, allowRules_run, conditionals_run]

/-- Elimination leaves the declarations alone, and pruning drops as many as it reports. -/
theorem length_types_run (optimizer : Optimizer) (policy : Policy) :
    (optimizer.run policy).types.length + (optimizer.report policy).prunedTypes
      = (merged policy).types.length := by
  have hmerged : (merged policy).types = (optimizer.eliminated policy).types :=
    (types_eliminated optimizer policy).1.symm
  rw [hmerged]
  cases hprunes : optimizer.prunesTypes with
  | false => simp [run, pruned, report, hprunes, Policy.sortParts]
  | true =>
    have hsum := Policy.length_types_pruneTypes _ (isMerged_eliminated optimizer policy)
    simpa [run, pruned, report, hprunes, Policy.sortParts] using hsum

/-- The report of a run makes up for what is missing in its result: the rules, the declarations and
the file contexts that are left, and those that the report counts, are as many as there were. None
of the differences that the report takes is cut off at zero. -/
theorem report_reconciles (optimizer : Optimizer) (policy : Policy) :
    optimizer.Shrinks policy
      ∧ policy.allowCount = (optimizer.run policy).allowCount
          + (optimizer.report policy).mergedRules + (optimizer.report policy).redundantRules
      ∧ policy.types.length = (optimizer.run policy).types.length
          + (optimizer.report policy).duplicateTypes + (optimizer.report policy).prunedTypes
      ∧ policy.fileContexts.length = (optimizer.run policy).fileContexts.length
          + (optimizer.report policy).duplicateFileContexts
          + (optimizer.report policy).orphanedFileContexts := by
  obtain ⟨hmerged, htypes, hcontexts, heliminated, hpruned⟩ := shrinks optimizer policy
  refine ⟨shrinks optimizer policy, ?_, ?_, ?_⟩
  · rw [allowCount_run]
    simp only [report]
    omega
  · have hkept := length_types_run optimizer policy
    have hduplicates : (optimizer.report policy).duplicateTypes
        = policy.types.length - (merged policy).types.length := rfl
    omega
  · have hrun : (optimizer.run policy).fileContexts = (optimizer.pruned policy).fileContexts := rfl
    have hbetween : (optimizer.eliminated policy).fileContexts = (merged policy).fileContexts :=
      (types_eliminated optimizer policy).2
    rw [hbetween] at hpruned
    simp only [report, hrun, hbetween]
    omega

end Optimizer

end TypeEnforcement
