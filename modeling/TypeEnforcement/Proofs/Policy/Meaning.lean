import TypeEnforcement.Proofs.Policy.MergedForm
import TypeEnforcement.Proofs.Policy.Redundancy
/-!
# Normal form keeps the meaning

Bringing a policy into normal form adds to what it grants the permission to open the files that may
be read, written or appended to, and nothing else; and it loses nothing. This holds for all values
of the booleans, so no rule moves out of its condition.

`Access.Follows` is the closure of a set of accesses under that one implication. An access follows
from one granted access in at most one step (`Access.follows_iff`), and merging adds permissions in
the same single steps (`AllowRule.mem_withOpen`).

## Main result

* `Optimizer.mem_grants_run_iff`: the accesses that a policy in normal form grants are those that
  follow from the accesses that the policy grants.
-/

namespace TypeEnforcement

open Canonical

/-! ## What follows from granted accesses -/

namespace Access

/-- Who gets access to what. -/
def key (access : Access) : AccessKey :=
  { source := access.source, target := access.target, objectClass := access.objectClass }

/-- The closure of granted accesses: whoever may read, write or append to an object of a file system
may open it. -/
inductive Follows (granted : List Access) : Access → Prop where
  | granted {access : Access} : access ∈ granted → Follows granted access
  | opens {access : Access} : Follows granted access →
      access.permission ∈ ["read", "write", "append"] →
      ObjectClass.isFileLike access.objectClass = true →
      Follows granted { access with permission := "open" }

end Access

namespace AllowRule

theorem mem_accesses_iff_key {rule : AllowRule} {access : Access} :
    access ∈ rule.accesses ↔ rule.key = access.key ∧ access.permission ∈ rule.permissions := by
  rw [mem_accesses, key, Access.key, AccessKey.mk.injEq, and_assoc, and_assoc]

/-- Some rule of a list gives an access if the list gives its permission for its key. -/
theorem exists_mem_accesses_iff {rules : List AllowRule} {access : Access} :
    (∃ rule ∈ rules, access ∈ rule.accesses) ↔
      access.permission ∈ permissionsFor access.key rules := by
  simp only [mem_permissionsFor, mem_accesses_iff_key]

end AllowRule

open AllowRule (Implies permissionsFor)

namespace Access

/-- An access follows from a granted one of the same key in one step. -/
theorem follows_iff {granted : List Access} {access : Access} :
    Follows granted access ↔
      ∃ given, { access with permission := given } ∈ granted
        ∧ Implies access.objectClass given access.permission := by
  constructor
  · intro h
    induction h with
    | @granted access hmem => exact ⟨access.permission, hmem, Implies.refl _ _⟩
    | @opens access _ hopener hfile ih =>
      obtain ⟨given, hmem, himplies⟩ := ih
      exact ⟨given, hmem, himplies.trans (Or.inr ⟨rfl, hfile, hopener⟩)⟩
  · intro hexists
    rcases hexists with ⟨given, hmem, himplies | ⟨hopen, hfile, hopener⟩⟩
    · have hself : { access with permission := given } = access := by rw [← himplies]
      exact Follows.granted (hself ▸ hmem)
    · have hopened := Follows.opens (Follows.granted hmem) hopener hfile
      have hself : { access with permission := "open" } = access := by
        rw [← show access.permission = "open" from hopen]
      exact hself ▸ hopened

end Access

/-! ## Grants of merged policies -/

namespace Policy

variable {policy : Policy} {values : String → Bool} {access : Access}

theorem mem_grants_iff :
    access ∈ policy.grants values ↔
      access.permission ∈ permissionsFor access.key policy.allowRules
        ∨ ∃ block ∈ policy.conditionals, block.condition.holds values = true
            ∧ access.permission ∈ permissionsFor access.key block.rules := by
  simp only [mem_grants, mem_activeRules, ← AllowRule.exists_mem_accesses_iff]
  constructor
  · intro hexists
    rcases hexists with ⟨rule, hrule | ⟨block, hblock, hholds, hrule⟩, haccess⟩
    · exact Or.inl ⟨rule, hrule, haccess⟩
    · exact Or.inr ⟨block, hblock, hholds, rule, hrule, haccess⟩
  · intro hcases
    rcases hcases with ⟨rule, hrule, haccess⟩ | ⟨block, hblock, hholds, rule, hrule, haccess⟩
    · exact ⟨rule, Or.inl hrule, haccess⟩
    · exact ⟨rule, Or.inr ⟨block, hblock, hholds, hrule⟩, haccess⟩

/-- What policies grant depends on their rules and blocks only. -/
theorem grants_congr {other : Policy} (hrules : policy.allowRules = other.allowRules)
    (hblocks : policy.conditionals = other.conditionals) :
    policy.grants values = other.grants values := by
  simp only [grants, activeRules, activeBlocks, hrules, hblocks]

end Policy

namespace ConditionalBlock

variable {blocks : List ConditionalBlock} {key : AccessKey} {permission : String}

theorem mem_permissionsFor_rulesUnder {condition : Condition} :
    permission ∈ permissionsFor key (rulesUnder condition blocks) ↔
      ∃ block ∈ blocks, block.condition = condition
        ∧ permission ∈ permissionsFor key block.rules := by
  simp only [AllowRule.mem_permissionsFor, mem_rulesUnder]
  constructor
  · intro hexists
    obtain ⟨rule, ⟨block, hblock, hcondition, hrule⟩, hpermission⟩ := hexists
    exact ⟨block, hblock, hcondition, rule, hrule, hpermission⟩
  · intro hexists
    obtain ⟨block, hblock, hcondition, rule, hrule, hpermission⟩ := hexists
    exact ⟨rule, ⟨block, hblock, hcondition, hrule⟩, hpermission⟩

/-- Merged blocks give under each condition what the blocks imply under it. -/
theorem exists_merge_iff {p : Condition → Prop} :
    (∃ block ∈ merge blocks, p block.condition ∧ permission ∈ permissionsFor key block.rules) ↔
      ∃ block ∈ blocks, p block.condition
        ∧ ∃ given ∈ permissionsFor key block.rules, Implies key.objectClass given permission := by
  constructor
  · intro hexists
    obtain ⟨block, hblock, hp, hpermission⟩ := hexists
    rw [(mem_merge.mp hblock).1, AllowRule.mem_permissionsFor_merge,
      AllowRule.mem_withOpen] at hpermission
    obtain ⟨given, hgiven, himplies⟩ := hpermission
    obtain ⟨original, horiginal, hcondition, hgiven⟩ := mem_permissionsFor_rulesUnder.mp hgiven
    exact ⟨original, horiginal, hcondition ▸ hp, given, hgiven, himplies⟩
  · intro hexists
    obtain ⟨block, hblock, hp, given, hgiven, himplies⟩ := hexists
    have hpermission : permission ∈ permissionsFor key
        (AllowRule.merge (rulesUnder block.condition blocks)) := by
      rw [AllowRule.mem_permissionsFor_merge, AllowRule.mem_withOpen]
      exact ⟨given, mem_permissionsFor_rulesUnder.mpr ⟨block, hblock, rfl, hgiven⟩, himplies⟩
    refine ⟨{ condition := block.condition
              rules := AllowRule.merge (rulesUnder block.condition blocks) }, ?_, hp, hpermission⟩
    obtain ⟨rule, hrule, -⟩ := AllowRule.mem_permissionsFor.mp hpermission
    exact mem_merge.mpr ⟨rfl, List.ne_nil_of_mem hrule⟩

end ConditionalBlock

namespace Optimizer

variable {policy : Policy} {values : String → Bool} {access : Access}

/-- A merged policy grants what follows from the accesses that the policy grants. -/
theorem mem_grants_merged_iff :
    access ∈ (merged policy).grants values ↔ Access.Follows (policy.grants values) access := by
  have hmerged : access ∈ (merged policy).grants values ↔
      (∃ given ∈ permissionsFor access.key policy.allowRules,
          Implies access.objectClass given access.permission)
        ∨ ∃ block ∈ policy.conditionals, block.condition.holds values = true
            ∧ ∃ given ∈ permissionsFor access.key block.rules,
                Implies access.objectClass given access.permission := by
    rw [Policy.mem_grants_iff]
    refine or_congr ?_ (ConditionalBlock.exists_merge_iff (p := (·.holds values = true)))
    exact AllowRule.mem_permissionsFor_merge.trans AllowRule.mem_withOpen
  rw [hmerged, Access.follows_iff]
  simp only [Policy.mem_grants_iff]
  constructor
  · intro hcases
    rcases hcases with ⟨given, hgiven, himplies⟩ | ⟨block, hblock, hholds, given, hgiven, himplies⟩
    · exact ⟨given, Or.inl hgiven, himplies⟩
    · exact ⟨given, Or.inr ⟨block, hblock, hholds, hgiven⟩, himplies⟩
  · intro hexists
    rcases hexists with ⟨given, hgiven | ⟨block, hblock, hholds, hgiven⟩, himplies⟩
    · exact Or.inl ⟨given, hgiven, himplies⟩
    · exact Or.inr ⟨block, hblock, hholds, given, hgiven, himplies⟩

theorem grants_run (optimizer : Optimizer) (policy : Policy) (values : String → Bool) :
    (optimizer.run policy).grants values = (optimizer.eliminated policy).grants values :=
  Policy.grants_congr (allowRules_run optimizer policy) (conditionals_run optimizer policy)

theorem mem_grants_eliminated_iff {optimizer : Optimizer} :
    access ∈ (optimizer.eliminated policy).grants values ↔
      Access.Follows (policy.grants values) access := by
  unfold eliminated
  split
  · rw [Policy.mem_grants_eliminateRedundant, mem_grants_merged_iff]
  · exact mem_grants_merged_iff

/-- The normal form of a policy grants, for all values of the booleans, the accesses that follow
from those that the policy grants: nothing else is added, and nothing is lost. -/
theorem mem_grants_run_iff (optimizer : Optimizer) (policy : Policy) (values : String → Bool)
    (access : Access) :
    access ∈ (optimizer.run policy).grants values ↔
      Access.Follows (policy.grants values) access := by
  rw [grants_run, mem_grants_eliminated_iff]

end Optimizer

end TypeEnforcement
