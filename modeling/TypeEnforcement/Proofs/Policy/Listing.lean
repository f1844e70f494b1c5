import TypeEnforcement.Proofs.Policy.Congruence
import TypeEnforcement.Proofs.Policy.Survival
/-!
# How a policy in normal form is listed

What is written out of a policy is written in the order of its collections. In normal form that
order is no accident of the rows or of the passes: each collection is strictly increasing, by the
part itself or by the key that merging goes by, so nothing is listed twice and no part has a choice
of where it stands. The five collections that no pass but the last touches come out with the
members that they had.

## Main results

* `Optimizer.isListed_run`: the order of the collections after a run, and what they keep.
* `Optimizer.run_eq_of_sameParts`: the result of a run is determined by its parts as sets.
* `Optimizer.run_eq_self_iff`: the policies that a run leaves alone are those in normal form.
-/

namespace TypeEnforcement

open Canonical

namespace Policy

/-! ## Order -/

/-- Whether two policies have the same members in the collections that are only put in order. -/
structure SameSortedParts (policy other : Policy) : Prop where
  typeTransitions : ∀ change, change ∈ policy.typeTransitions ↔ change ∈ other.typeTransitions
  capabilities : ∀ capability, capability ∈ policy.capabilities ↔ capability ∈ other.capabilities
  portBindings : ∀ binding, binding ∈ policy.portBindings ↔ binding ∈ other.portBindings
  booleans : ∀ decl, decl ∈ policy.booleans ↔ decl ∈ other.booleans
  domainTransitions : ∀ transition,
    transition ∈ policy.domainTransitions ↔ transition ∈ other.domainTransitions

variable {policy other : Policy}

theorem SameParts.sorted (h : policy.SameParts other) : policy.SameSortedParts other where
  typeTransitions := h.typeTransitions
  capabilities := h.capabilities
  portBindings := h.portBindings
  booleans := h.booleans
  domainTransitions := h.domainTransitions

/-- Sorted collections are determined by their members. -/
theorem IsSorted.parts_eq (h : policy.IsSorted) (h' : other.IsSorted)
    (hparts : policy.SameSortedParts other) :
    policy.typeTransitions = other.typeTransitions
      ∧ policy.capabilities = other.capabilities
      ∧ policy.portBindings = other.portBindings
      ∧ policy.booleans = other.booleans
      ∧ policy.domainTransitions = other.domainTransitions :=
  ⟨eq_of_mem_iff h.typeTransitions h'.typeTransitions hparts.typeTransitions,
    eq_of_mem_iff h.capabilities h'.capabilities hparts.capabilities,
    eq_of_mem_iff h.portBindings h'.portBindings hparts.portBindings,
    eq_of_mem_iff h.booleans h'.booleans hparts.booleans,
    eq_of_mem_iff h.domainTransitions h'.domainTransitions hparts.domainTransitions⟩

/-- Two policies that are listed in order and have the same parts are the same. -/
theorem eq_of_sameParts (hmerged : policy.IsMerged) (hmerged' : other.IsMerged)
    (hsorted : policy.IsSorted) (hsorted' : other.IsSorted) (hparts : policy.SameParts other) :
    policy = other := by
  have hrules : policy.allowRules = other.allowRules :=
    eq_of_mem_iff_of_key hmerged.rules.keys hmerged'.rules.keys hparts.allowRules
  have htypes : policy.types = other.types :=
    eq_of_mem_iff_of_key hmerged.types.names hmerged'.types.names hparts.types
  have hcontexts : policy.fileContexts = other.fileContexts :=
    eq_of_mem_iff_of_key hmerged.contexts hmerged'.contexts hparts.fileContexts
  -- Blocks may share a condition in `SameParts`; merged ones do not, and are their own merger.
  have hblocks : policy.conditionals = other.conditionals := by
    rw [← ConditionalBlock.merge_eq_self hmerged.blocks,
      ← ConditionalBlock.merge_eq_self hmerged'.blocks]
    exact ConditionalBlock.merge_congr hparts.conditionals
  obtain ⟨htransitions, hcapabilities, hports, hbooleans, hdomains⟩ :=
    hsorted.parts_eq hsorted' hparts.sorted
  have hname := hparts.moduleName
  have hversion := hparts.version
  cases policy
  cases other
  simp only [Policy.mk.injEq]
  exact ⟨hname, hversion, htypes, hrules, htransitions, hcontexts, hcapabilities, hports,
    hbooleans, hblocks, hdomains⟩

end Policy

/-! ## Runs -/

namespace Optimizer

variable {optimizer : Optimizer} {policy other : Policy}

/-- The collections that are only put in order keep their members. -/
theorem sameSortedParts_run (optimizer : Optimizer) (policy : Policy) :
    (optimizer.run policy).SameSortedParts policy := by
  obtain ⟨htransitions, hcapabilities, hports, hbooleans, hdomains⟩ :=
    sorted_run optimizer policy
  constructor
  · intro change
    rw [htransitions, mem_ofList]
  · intro capability
    rw [hcapabilities, mem_ofList]
  · intro binding
    rw [hports, mem_ofList]
  · intro decl
    rw [hbooleans, mem_ofList]
  · intro transition
    rw [hdomains, mem_ofList]

/-- No pass changes which module a policy is of. -/
theorem module_run (optimizer : Optimizer) (policy : Policy) :
    (optimizer.run policy).moduleName = policy.moduleName
      ∧ (optimizer.run policy).version = policy.version := by
  unfold run pruned eliminated
  split <;> split <;> exact ⟨rfl, rfl⟩

/-- The policies that a run leaves alone are those that are normal for its setting. -/
theorem run_eq_self_iff : optimizer.run policy = policy ↔ optimizer.IsNormal policy := by
  constructor
  · intro heq
    exact heq ▸ isNormal_run optimizer policy
  · exact run_eq_self

/-- The results of two runs are the same if they have the same parts as sets. -/
theorem run_eq_of_sameParts {first second : Optimizer}
    (hparts : (first.run policy).SameParts (second.run other)) :
    first.run policy = second.run other := by
  have hfirst := isNormal_run first policy
  have hsecond := isNormal_run second other
  exact Policy.eq_of_sameParts hfirst.merged hsecond.merged hfirst.sorted hsecond.sorted hparts

/-- A run lists every collection in order: rules by their keys, also within each block, blocks by
their conditions and none without a rule, types by their names, file contexts by pattern and kind,
and the other five by the order of the part. Those five have the members that they had; with
elimination, no rule of a block is covered by an unconditional one; and the module is the same. -/
theorem isListed_run (optimizer : Optimizer) (policy : Policy) :
    (optimizer.run policy).IsMerged
      ∧ (optimizer.run policy).IsSorted
      ∧ (optimizer.run policy).SameSortedParts policy
      ∧ (optimizer.eliminatesRedundant = true → (optimizer.run policy).IsIrredundant)
      ∧ (optimizer.run policy).moduleName = policy.moduleName
      ∧ (optimizer.run policy).version = policy.version := by
  have hnormal : optimizer.IsNormal (optimizer.run policy) := isNormal_run optimizer policy
  exact ⟨hnormal.merged, hnormal.sorted, sameSortedParts_run optimizer policy,
    hnormal.irredundant, module_run optimizer policy⟩

/-- A rule of a block goes where an unconditional rule allows the same after merging, and the block
with it; the booleans are listed by their names. -/
theorem isListed_run_coveredBlock :
    let policy : Policy :=
      { moduleName := "app", version := "1.0"
        allowRules := [.of "app" "data" "file" ["write"], .of "app" "data" "file" ["read"]]
        booleans := [⟨"strict", false⟩, ⟨"open", false⟩, ⟨"strict", false⟩]
        conditionals := [⟨⟨"strict", false⟩, [.of "app" "data" "file" ["read"]]⟩] }
    (run ⟨true, false⟩ policy).IsIrredundant
      ∧ (run ⟨true, false⟩ policy).conditionals = []
      ∧ (run ⟨true, false⟩ policy).booleans = [⟨"open", false⟩, ⟨"strict", false⟩] := by
  intro policy
  obtain ⟨-, -, -, hirredundant, -, -⟩ := isListed_run ⟨true, false⟩ policy
  exact ⟨hirredundant rfl, by decide +kernel, by decide +kernel⟩

end Optimizer

end TypeEnforcement
