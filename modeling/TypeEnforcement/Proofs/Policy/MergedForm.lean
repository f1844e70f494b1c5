import Mathlib.Data.List.Basic
import TypeEnforcement.Proofs.Policy.Merging
/-!
# The merged form of a policy

Blocks, declarations and file contexts are merged like rules: one for each condition, name or key,
in order. Each collection has a form that its merger is in, and a collection in that form is its
own merger. `Policy.IsMerged` joins the forms; it is what the later passes rely on, and none of them
leaves it.

## Main results

* `Optimizer.isMerged_merged`: a merged policy is in merged form.
* `Optimizer.merged_eq_self`: a policy in merged form is its own merger.
-/

namespace TypeEnforcement

open Canonical

/-! ## Blocks -/

namespace ConditionalBlock

/-- The rules of all blocks with a condition. -/
def rulesUnder (condition : Condition) (blocks : List ConditionalBlock) : List AllowRule :=
  (blocks.filter (·.condition == condition)).flatMap (·.rules)

theorem mem_rulesUnder {condition : Condition} {blocks : List ConditionalBlock}
    {rule : AllowRule} :
    rule ∈ rulesUnder condition blocks ↔
      ∃ block ∈ blocks, block.condition = condition ∧ rule ∈ block.rules := by
  simp only [rulesUnder, List.mem_flatMap, List.mem_filter, beq_iff_eq, and_assoc]

/-- A merged block has all rules under its condition, merged, and there is one. -/
theorem mem_merge {block : ConditionalBlock} {blocks : List ConditionalBlock} :
    block ∈ merge blocks ↔
      block.rules = AllowRule.merge (rulesUnder block.condition blocks) ∧ block.rules ≠ [] := by
  simp only [merge, List.mem_filter, List.mem_map, mem_ofList, Bool.not_eq_true',
    List.isEmpty_eq_false_iff, ne_eq]
  constructor
  · intro hexists
    obtain ⟨⟨_, ⟨-, -, -⟩, rfl⟩, hrules⟩ := hexists
    exact ⟨rfl, hrules⟩
  · intro hboth
    obtain ⟨hrules, hsome⟩ := hboth
    refine ⟨⟨block.condition, ?_, ?_⟩, hsome⟩
    · -- The condition is one of the blocks, for a block without rules would be left out.
      have hunder : rulesUnder block.condition blocks ≠ [] := fun hnil =>
        hsome (hrules.trans (AllowRule.merge_eq_nil_iff.mpr hnil))
      obtain ⟨rule, hrule⟩ := List.exists_mem_of_ne_nil _ hunder
      obtain ⟨other, hother, hcondition, -⟩ := mem_rulesUnder.mp hrule
      exact ⟨other, hother, hcondition⟩
    · show ConditionalBlock.mk block.condition
        (AllowRule.merge (rulesUnder block.condition blocks)) = block
      rw [← hrules]

/-- The form of merged blocks: their conditions are canonical, and each has merged rules. -/
structure AreMerged (blocks : List ConditionalBlock) : Prop where
  conditions : StrictlyIncreasing (blocks.map (·.condition))
  rules : ∀ block ∈ blocks, AllowRule.IsMerged block.rules
  nonempty : ∀ block ∈ blocks, block.rules ≠ []

theorem areMerged_merge (blocks : List ConditionalBlock) : AreMerged (merge blocks) where
  conditions := by
    refine StrictlyIncreasing.sublist (strictlyIncreasing_ofList (blocks.map (·.condition))) ?_
    have hsub := (List.filter_sublist (p := fun block => !block.rules.isEmpty)
      (l := (ofList (blocks.map (·.condition))).map fun condition =>
        ConditionalBlock.mk condition
          (AllowRule.merge (rulesUnder condition blocks)))).map (·.condition)
    rw [List.map_map] at hsub
    exact hsub.trans (List.map_id _ ▸ List.Sublist.refl _)
  rules := by
    intro block hblock
    rw [(mem_merge.mp hblock).1]
    exact AllowRule.isMerged_merge _
  nonempty := fun block hblock => (mem_merge.mp hblock).2

/-- Blocks in merged form are their own merger. -/
theorem merge_eq_self {blocks : List ConditionalBlock} (h : AreMerged blocks) :
    merge blocks = blocks := by
  have hlaid : ((ofList (blocks.map (·.condition))).map fun condition =>
      ConditionalBlock.mk condition (AllowRule.merge (rulesUnder condition blocks))) = blocks := by
    refine map_key_eq_self h.conditions ?_
    intro block hblock
    have hunder : rulesUnder block.condition blocks = block.rules := by
      rw [rulesUnder, filter_key_eq_singleton h.conditions.nodup hblock, List.flatMap_singleton]
    rw [hunder, AllowRule.merge_eq_self (h.rules block hblock)]
  have hkept : blocks.filter (fun block => !block.rules.isEmpty) = blocks := by
    rw [List.filter_eq_self]
    intro block hblock
    simpa using h.nonempty block hblock
  exact (congrArg (List.filter fun block => !block.rules.isEmpty) hlaid).trans hkept

end ConditionalBlock

/-! ## Declarations -/

namespace TypeDecl

/-- The form of merged declarations: their names are canonical, and so are the attributes of
each. -/
structure AreMerged (decls : List TypeDecl) : Prop where
  names : StrictlyIncreasing (decls.map (·.name))
  attributes : ∀ decl ∈ decls, StrictlyIncreasing decl.attributes

theorem names_merge (decls : List TypeDecl) :
    (merge decls).map (·.name) = ofList (decls.map (·.name)) := by
  rw [merge, List.map_map]
  exact List.map_id _

theorem areMerged_merge (decls : List TypeDecl) : AreMerged (merge decls) where
  names := names_merge decls ▸ strictlyIncreasing_ofList _
  attributes := by
    intro decl hdecl
    obtain ⟨name, -, rfl⟩ := List.mem_map.mp hdecl
    exact strictlyIncreasing_ofList _

theorem AreMerged.sublist {some decls : List TypeDecl} (h : AreMerged decls)
    (hsub : some.Sublist decls) : AreMerged some where
  names := h.names.sublist (hsub.map _)
  attributes := fun decl hdecl => h.attributes decl (hsub.mem hdecl)

/-- Declarations in merged form are their own merger. -/
theorem merge_eq_self {decls : List TypeDecl} (h : AreMerged decls) : merge decls = decls := by
  refine map_key_eq_self h.names ?_
  intro decl hdecl
  have hnamed : named decl.name decls = [decl] := filter_key_eq_singleton h.names.nodup hdecl
  have hattributes : ofList decl.attributes = decl.attributes :=
    ofList_eq_self (h.attributes decl hdecl)
  rw [hnamed, union, of, List.flatMap_singleton, hattributes]
  cases hcomment : decl.comment <;> cases decl <;> simp_all

end TypeDecl

/-! ## File contexts -/

namespace FileContext

/-- File contexts in merged form have canonical keys. -/
def AreMerged (entries : List FileContext) : Prop :=
  StrictlyIncreasing (entries.map key)

theorem exists_find?_key {entries : List FileContext} {entry : FileContext}
    (h : entry ∈ entries) :
    ∃ found ∈ entries, entries.find? (·.key == entry.key) = some found
      ∧ found.key = entry.key := by
  cases hfind : entries.find? (·.key == entry.key) with
  | none => exact absurd (beq_self_eq_true entry.key) (List.find?_eq_none.mp hfind entry h)
  | some found =>
    exact ⟨found, List.mem_of_find?_eq_some hfind, rfl, by simpa using List.find?_some hfind⟩

/-- A file context is merged if it is the first with its key. -/
theorem mem_merge {entry : FileContext} {entries : List FileContext} :
    entry ∈ merge entries ↔ entries.find? (·.key == entry.key) = some entry := by
  simp only [merge, List.mem_filterMap, mem_ofList, List.mem_map]
  constructor
  · intro hexists
    obtain ⟨_, ⟨other, -, rfl⟩, hfind⟩ := hexists
    have hkey : entry.key = other.key := by simpa using List.find?_some hfind
    rw [hkey, hfind]
  · intro hfind
    exact ⟨entry.key, ⟨entry, List.mem_of_find?_eq_some hfind, rfl⟩, hfind⟩

theorem areMerged_merge (entries : List FileContext) : AreMerged (merge entries) := by
  have hkeys : (merge entries).map key = ofList (entries.map key) := by
    have hall : ∀ k ∈ ofList (entries.map key),
        (entries.find? (·.key == k)).map key = some k := by
      intro k hk
      obtain ⟨entry, hentry, rfl⟩ := List.mem_map.mp (mem_ofList.mp hk)
      obtain ⟨found, -, hfind, hkey⟩ := exists_find?_key hentry
      rw [hfind, Option.map_some, hkey]
    rw [merge, List.map_filterMap, List.filterMap_congr hall, List.filterMap_some]
  unfold AreMerged
  rw [hkeys]
  exact strictlyIncreasing_ofList _

/-- File contexts in merged form are their own merger. -/
theorem merge_eq_self {entries : List FileContext} (h : AreMerged entries) :
    merge entries = entries := by
  have hfind : ∀ entry ∈ entries, entries.find? (·.key == entry.key) = some entry := by
    intro entry hentry
    have hhead := List.head?_filter (l := entries) (p := (·.key == entry.key))
    rw [filter_key_eq_singleton (StrictlyIncreasing.nodup h) hentry] at hhead
    exact hhead.symm
  rw [merge, ofList_eq_self h, List.filterMap_map]
  exact (List.filterMap_congr hfind).trans List.filterMap_some

end FileContext

/-! ## Policies -/

/-- The form of a merged policy. -/
structure Policy.IsMerged (policy : Policy) : Prop where
  rules : AllowRule.IsMerged policy.allowRules
  blocks : ConditionalBlock.AreMerged policy.conditionals
  types : TypeDecl.AreMerged policy.types
  contexts : FileContext.AreMerged policy.fileContexts

namespace Optimizer

theorem isMerged_merged (policy : Policy) : (merged policy).IsMerged where
  rules := AllowRule.isMerged_merge policy.allowRules
  blocks := ConditionalBlock.areMerged_merge policy.conditionals
  types := TypeDecl.areMerged_merge policy.types
  contexts := FileContext.areMerged_merge policy.fileContexts

theorem merged_eq_self {policy : Policy} (h : policy.IsMerged) : merged policy = policy := by
  cases policy
  simp only [merged, Policy.mergeRules, Policy.mk.injEq, true_and, and_true]
  exact ⟨TypeDecl.merge_eq_self h.types, AllowRule.merge_eq_self h.rules,
    FileContext.merge_eq_self h.contexts, ConditionalBlock.merge_eq_self h.blocks⟩

end Optimizer

end TypeEnforcement
