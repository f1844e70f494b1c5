import TypeEnforcement.Proofs.Policy.Composition
/-!
# What is left of a policy

The normal form of a policy has rules of its own, but each rule of the policy has a cover among
them and each of them covers a rule of the policy. So the names that the policy refers to stay the
same, and with them the declarations of those names and the file contexts that give them. The other
collections lose nothing.

## Main results

* `Optimizer.isCoveredBy_run`: the rules that are left.
* `Optimizer.mem_references_run`: the names that are referred to stay the same.
* `Optimizer.exists_decl_run`: a type that is referred to stays declared, with its attributes.
* `Optimizer.mem_fileContexts_run_of_references`: the file contexts of such a type stay, one for
  each key.
-/

namespace TypeEnforcement

open Canonical

variable {optimizer : Optimizer} {policy : Policy} {name : String}

/-! ## Merged parts -/

namespace AllowRule

/-- The merged rule of a key covers all rules with that key. -/
theorem isCoveredBy_of_mem_merge {rules : List AllowRule} {rule merged : AllowRule}
    (hrule : rule ∈ rules) (hmerged : merged ∈ merge rules) (hkey : rule.key = merged.key) :
    rule.isCoveredBy merged = true := by
  refine isCoveredBy_iff.mpr ⟨hkey, ?_⟩
  intro permission hpermission
  rw [(mem_merge.mp hmerged).2, mem_ofList, mem_withOpen]
  exact ⟨permission, mem_permissionsFor.mpr ⟨rule, hrule, hkey, hpermission⟩, Implies.refl _ _⟩

/-- Merging leaves a cover of each rule. -/
theorem exists_cover_merge {rules : List AllowRule} {rule : AllowRule} (hrule : rule ∈ rules) :
    ∃ merged ∈ merge rules, rule.isCoveredBy merged = true := by
  have hkey : rule.key ∈ (merge rules).map key := by
    rw [keys_merge, mem_ofList]
    exact List.mem_map_of_mem hrule
  obtain ⟨merged, hmerged, heq⟩ := List.mem_map.mp hkey
  exact ⟨merged, hmerged, isCoveredBy_of_mem_merge hrule hmerged heq.symm⟩

/-- Each merged rule covers a rule. -/
theorem exists_original_merge {rules : List AllowRule} {merged : AllowRule}
    (hmerged : merged ∈ merge rules) : ∃ rule ∈ rules, rule.isCoveredBy merged = true := by
  obtain ⟨⟨rule, hrule, hkey⟩, -⟩ := mem_merge.mp hmerged
  exact ⟨rule, hrule, isCoveredBy_of_mem_merge hrule hmerged hkey⟩

end AllowRule

namespace TypeDecl

/-- The united declaration of a type has the attributes of each declaration. -/
theorem mem_attributes_union {decls : List TypeDecl} {decl : TypeDecl} (hdecl : decl ∈ decls)
    {label : String} (hlabel : label ∈ decl.attributes) :
    label ∈ (union decl.name (named decl.name decls)).attributes := by
  refine mem_ofList.mpr (List.mem_flatMap.mpr ⟨decl, ?_, hlabel⟩)
  exact List.mem_filter.mpr ⟨hdecl, beq_self_eq_true _⟩

/-- Merging keeps each type declared, with its attributes. -/
theorem exists_decl_merge {decls : List TypeDecl} {decl : TypeDecl} (hdecl : decl ∈ decls) :
    ∃ merged ∈ merge decls, merged.name = decl.name
      ∧ ∀ label ∈ decl.attributes, label ∈ merged.attributes := by
  refine ⟨union decl.name (named decl.name decls), ?_, rfl, fun label => mem_attributes_union hdecl⟩
  exact List.mem_map_of_mem (mem_ofList.mpr (List.mem_map_of_mem hdecl))

end TypeDecl

namespace FileContext

/-- Merging keeps a file context for each key. -/
theorem exists_context_merge {entries : List FileContext} {entry : FileContext}
    (hentry : entry ∈ entries) : ∃ merged ∈ merge entries, merged.key = entry.key := by
  obtain ⟨merged, -, hfind, hkey⟩ := exists_find?_key hentry
  exact ⟨merged, mem_merge.mpr (hkey ▸ hfind), hkey⟩

end FileContext

namespace Policy

theorem mem_typeNames : name ∈ policy.typeNames ↔ ∃ decl ∈ policy.types, decl.name = name := by
  rw [typeNames, mem_ofList, List.mem_map]

end Policy

namespace Optimizer

/-! ## Rules -/

theorem isCoveredBy_merged (policy : Policy) : policy.IsCoveredBy (merged policy) where
  cover := by
    intro rule hrule
    rcases Policy.mem_allRules.mp hrule with hrule | ⟨block, hblock, hrule⟩
    · obtain ⟨kept, hkept, hcovers⟩ := AllowRule.exists_cover_merge hrule
      exact ⟨kept, Policy.mem_allRules.mpr (Or.inl hkept), hcovers⟩
    · have hunder : rule ∈ ConditionalBlock.rulesUnder block.condition policy.conditionals :=
        ConditionalBlock.mem_rulesUnder.mpr ⟨block, hblock, rfl, hrule⟩
      obtain ⟨kept, hkept, hcovers⟩ := AllowRule.exists_cover_merge hunder
      refine ⟨kept, Policy.mem_allRules.mpr (Or.inr ⟨⟨block.condition, _⟩, ?_, hkept⟩), hcovers⟩
      exact ConditionalBlock.mem_merge.mpr ⟨rfl, List.ne_nil_of_mem hkept⟩
  original := by
    intro kept hkept
    rcases Policy.mem_allRules.mp hkept with hkept | ⟨block, hblock, hkept⟩
    · obtain ⟨rule, hrule, hcovers⟩ := AllowRule.exists_original_merge hkept
      exact ⟨rule, Policy.mem_allRules.mpr (Or.inl hrule), hcovers⟩
    · rw [(ConditionalBlock.mem_merge.mp hblock).1] at hkept
      obtain ⟨rule, hrule, hcovers⟩ := AllowRule.exists_original_merge hkept
      obtain ⟨original, horiginal, -, hmem⟩ := ConditionalBlock.mem_rulesUnder.mp hrule
      exact ⟨rule, Policy.mem_allRules.mpr (Or.inr ⟨original, horiginal, hmem⟩), hcovers⟩

theorem isCoveredBy_eliminated (optimizer : Optimizer) (policy : Policy) :
    policy.IsCoveredBy (optimizer.eliminated policy) := by
  unfold eliminated
  split
  · exact (isCoveredBy_merged policy).trans (Policy.isCoveredBy_eliminateRedundant _)
  · exact isCoveredBy_merged policy

/-- Each rule of a policy has a cover in its normal form, and each rule of the normal form covers a
rule of the policy. -/
theorem isCoveredBy_run (optimizer : Optimizer) (policy : Policy) :
    policy.IsCoveredBy (optimizer.run policy) := by
  have hrules : (optimizer.run policy).allRules = (optimizer.eliminated policy).allRules := by
    simp only [Policy.allRules, Policy.conditionalRules, allowRules_run, conditionals_run]
  obtain ⟨hcover, horiginal⟩ := isCoveredBy_eliminated optimizer policy
  exact ⟨hrules ▸ hcover, hrules ▸ horiginal⟩

/-- Each block of the normal form of a policy has the condition of a block of the policy. -/
theorem exists_block_of_run {block : ConditionalBlock}
    (hblock : block ∈ (optimizer.run policy).conditionals) :
    ∃ original ∈ policy.conditionals, original.condition = block.condition := by
  have hmerged : ∀ block ∈ (merged policy).conditionals,
      ∃ original ∈ policy.conditionals, original.condition = block.condition := by
    intro block hblock
    obtain ⟨hrules, hsome⟩ := ConditionalBlock.mem_merge.mp hblock
    rw [hrules, ne_eq, AllowRule.merge_eq_nil_iff] at hsome
    obtain ⟨rule, hrule⟩ := List.exists_mem_of_ne_nil _ hsome
    obtain ⟨original, horiginal, hcondition, -⟩ := ConditionalBlock.mem_rulesUnder.mp hrule
    exact ⟨original, horiginal, hcondition⟩
  rw [conditionals_run, eliminated] at hblock
  split at hblock
  · obtain ⟨left, hleft, hcondition, -⟩ := Policy.exists_original_block hblock
    obtain ⟨original, horiginal, hsame⟩ := hmerged left hleft
    exact ⟨original, horiginal, hsame.trans hcondition⟩
  · exact hmerged block hblock

theorem nodup_permissions_run {kept : AllowRule}
    (hkept : kept ∈ (optimizer.run policy).allRules) : kept.permissions.Nodup := by
  have hnormal := (isNormal_run optimizer policy).merged
  rcases Policy.mem_allRules.mp hkept with hkept | ⟨block, hblock, hkept⟩
  · exact (hnormal.rules.permissions kept hkept).nodup
  · exact ((hnormal.blocks.rules block hblock).permissions kept hkept).nodup

/-! ## Collections that lose nothing -/

/-- The collections that are only sorted. -/
theorem sorted_run (optimizer : Optimizer) (policy : Policy) :
    (optimizer.run policy).typeTransitions = ofList policy.typeTransitions
      ∧ (optimizer.run policy).capabilities = ofList policy.capabilities
      ∧ (optimizer.run policy).portBindings = ofList policy.portBindings
      ∧ (optimizer.run policy).booleans = ofList policy.booleans
      ∧ (optimizer.run policy).domainTransitions = ofList policy.domainTransitions := by
  unfold run pruned eliminated
  split <;> split <;> exact ⟨rfl, rfl, rfl, rfl, rfl⟩

/-! ## Names -/

theorem mem_references_eliminated (optimizer : Optimizer) (policy : Policy) (name : String) :
    name ∈ (optimizer.eliminated policy).references ↔ name ∈ policy.references := by
  have hothers : (optimizer.eliminated policy).typeTransitions = policy.typeTransitions
      ∧ (optimizer.eliminated policy).portBindings = policy.portBindings := by
    unfold eliminated
    split <;> exact ⟨rfl, rfl⟩
  exact (isCoveredBy_eliminated optimizer policy).mem_references_iff hothers.1 hothers.2

/-- A policy in normal form refers to the same names. -/
theorem mem_references_run :
    name ∈ (optimizer.run policy).references ↔ name ∈ policy.references := by
  have hpruned : name ∈ (optimizer.pruned policy).references ↔
      name ∈ (optimizer.eliminated policy).references := by
    unfold pruned
    split <;> rfl
  rw [run, Policy.mem_references_sortParts, hpruned, mem_references_eliminated]

/-! ## Declarations and file contexts -/

theorem types_eliminated (optimizer : Optimizer) (policy : Policy) :
    (optimizer.eliminated policy).types = TypeDecl.merge policy.types
      ∧ (optimizer.eliminated policy).fileContexts = FileContext.merge policy.fileContexts := by
  unfold eliminated
  split <;> exact ⟨rfl, rfl⟩

theorem isAmong_of_mem {names : List String} {decl : TypeDecl} (h : decl.name ∈ names) :
    decl.isAmong names = true := by
  rw [TypeDecl.isAmong, List.contains_iff_mem.mpr h, Bool.true_or]

/-- The declarations that are left: with pruning, those that the policy refers to. -/
theorem mem_types_run {decl : TypeDecl} :
    decl ∈ (optimizer.run policy).types ↔
      decl ∈ TypeDecl.merge policy.types
        ∧ (optimizer.prunesTypes = true → decl.isAmong policy.references = true) := by
  obtain ⟨htypes, -⟩ := types_eliminated optimizer policy
  have hused : decl.isAmong (optimizer.eliminated policy).references
      = decl.isAmong policy.references :=
    Policy.isAmong_congr (mem_references_eliminated optimizer policy) decl
  rw [← hused, ← htypes]
  unfold run pruned
  cases optimizer.prunesTypes with
  | false => simp [Policy.sortParts]
  | true => simp [Policy.sortParts, Policy.pruneTypes]

/-- The file contexts that are left: with pruning, those whose type is not dropped. -/
theorem mem_fileContexts_run {entry : FileContext} :
    entry ∈ (optimizer.run policy).fileContexts ↔
      entry ∈ FileContext.merge policy.fileContexts
        ∧ (optimizer.prunesTypes = true → ∀ decl ∈ TypeDecl.merge policy.types,
            decl.name = entry.targetType → decl.isAmong policy.references = true) := by
  obtain ⟨htypes, hcontexts⟩ := types_eliminated optimizer policy
  have hunused : entry.targetType ∉ (optimizer.eliminated policy).unusedTypes ↔
      ∀ decl ∈ TypeDecl.merge policy.types,
        decl.name = entry.targetType → decl.isAmong policy.references = true := by
    have hused := Policy.isAmong_congr (mem_references_eliminated optimizer policy)
    simp only [Policy.mem_unusedTypes, htypes, hused, not_exists, not_and]
    refine forall₂_congr fun decl _ => ?_
    cases decl.isAmong policy.references <;> simp
  rw [← hunused, ← hcontexts]
  unfold run pruned
  cases optimizer.prunesTypes with
  | false => simp [Policy.sortParts]
  | true => simp [Policy.sortParts, Policy.pruneTypes]

/-- A type that a policy refers to stays declared, with its attributes. -/
theorem exists_decl_run (optimizer : Optimizer) {decl : TypeDecl} (hdecl : decl ∈ policy.types)
    (hreferred : decl.name ∈ policy.references) :
    ∃ kept ∈ (optimizer.run policy).types, kept.name = decl.name
      ∧ ∀ label ∈ decl.attributes, label ∈ kept.attributes := by
  obtain ⟨kept, hkept, hname, hlabels⟩ := TypeDecl.exists_decl_merge hdecl
  have hused : kept.isAmong policy.references = true := isAmong_of_mem (hname ▸ hreferred)
  exact ⟨kept, mem_types_run.mpr ⟨hkept, fun _ => hused⟩, hname, hlabels⟩

theorem mem_typeNames_run (optimizer : Optimizer) (hname : name ∈ policy.typeNames)
    (hreferred : name ∈ policy.references) : name ∈ (optimizer.run policy).typeNames := by
  obtain ⟨decl, hdecl, rfl⟩ := Policy.mem_typeNames.mp hname
  obtain ⟨kept, hkept, heq, -⟩ := exists_decl_run optimizer hdecl hreferred
  exact Policy.mem_typeNames.mpr ⟨kept, hkept, heq⟩

/-- The first file context of a key stays, if the policy refers to its type. -/
theorem mem_fileContexts_run_of_references (optimizer : Optimizer) {entry : FileContext}
    (hentry : entry ∈ FileContext.merge policy.fileContexts)
    (hreferred : entry.targetType ∈ policy.references) :
    entry ∈ (optimizer.run policy).fileContexts :=
  mem_fileContexts_run.mpr ⟨hentry, fun _ _ _ hname => isAmong_of_mem (hname ▸ hreferred)⟩

/-- The file contexts that are left are some of the policy. -/
theorem mem_fileContexts_of_run {entry : FileContext}
    (hentry : entry ∈ (optimizer.run policy).fileContexts) : entry ∈ policy.fileContexts :=
  List.mem_of_find?_eq_some (FileContext.mem_merge.mp (mem_fileContexts_run.mp hentry).1)

/-- The type of a file context that is left stays declared. -/
theorem mem_typeNames_of_mem_fileContexts_run {entry : FileContext}
    (hentry : entry ∈ (optimizer.run policy).fileContexts)
    (hname : entry.targetType ∈ policy.typeNames) :
    entry.targetType ∈ (optimizer.run policy).typeNames := by
  obtain ⟨decl, hdecl, heq⟩ := Policy.mem_typeNames.mp hname
  obtain ⟨kept, hkept, hkeptname, -⟩ := TypeDecl.exists_decl_merge hdecl
  have hsame : kept.name = entry.targetType := hkeptname.trans heq
  refine Policy.mem_typeNames.mpr ⟨kept, mem_types_run.mpr ⟨hkept, fun hprunes => ?_⟩, hsame⟩
  exact (mem_fileContexts_run.mp hentry).2 hprunes kept hkept hsame

end Optimizer

end TypeEnforcement
