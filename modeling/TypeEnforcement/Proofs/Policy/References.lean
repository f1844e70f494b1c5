import TypeEnforcement.Proofs.Policy.Survival
import TypeEnforcement.TypeName
/-!
# Policies without dangling references

In a closed policy (`Policy.IsClosed`) all that its parts mention is declared: types once, each with
what is asked of it, and booleans once. The normal form declares less than the policy, but it keeps
each type that a rule, a change of type or a port refers to. Capabilities and domain transitions are
no references of that kind; where each of them comes with a rule or a change of type on the same
names (`Policy.IsAnchored`), their types stay as well.

## Main result

* `Policy.IsClosed.run`: the normal form of a closed and anchored policy is closed.
-/

namespace TypeEnforcement

open Canonical

/-- What the target of a rule may be, where some attributes are known and some types declared. A
name that does not end as those of types do may be that of an attribute defined elsewhere. -/
def IsTarget (attributes names : List String) (target : String) : Prop :=
  target ∈ names ∨ target = AllowRule.selfTarget ∨ target ∈ attributes
    ∨ Text.endsWith target TypeName.ending = false

theorem IsTarget.mono {attributes names others : List String} {target : String}
    (h : IsTarget attributes names target) (hnames : target ∈ names → target ∈ others) :
    IsTarget attributes others target :=
  h.imp_left hnames

namespace Policy

variable {policy : Policy} {attributes : List String}

/-- Whether a block or a domain transition of a policy depends on a condition. -/
def DependsOn (policy : Policy) (condition : Condition) : Prop :=
  (∃ block ∈ policy.conditionals, block.condition = condition)
    ∨ ∃ transition ∈ policy.domainTransitions, condition ∈ transition.conditions

/-- All that the parts of a policy mention is declared, where some attributes are known. -/
structure IsClosed (attributes : List String) (policy : Policy) : Prop where
  names : (policy.types.map (·.name)).Nodup
  rules : ∀ rule ∈ policy.allRules,
    rule.permissions ≠ [] ∧ rule.permissions.Nodup ∧ rule.source ∈ policy.typeNames
      ∧ IsTarget attributes policy.typeNames rule.target
  changes : ∀ change ∈ policy.typeTransitions,
    change.source ∈ policy.typeNames ∧ change.newType ∈ policy.typeNames
      ∧ (change.objectClass = ObjectClass.process → change.target ∈ policy.typeNames)
  contexts : ∀ entry ∈ policy.fileContexts,
    Text.startsWith entry.pattern "/" = true ∧ entry.targetType ∈ policy.typeNames
  ports : ∀ binding ∈ policy.portBindings, ∃ decl ∈ policy.types,
    decl.name = binding.typeName ∧ decl.hasAttribute TypeName.portAttribute = true
  capabilities : ∀ capability ∈ policy.capabilities, capability.domain ∈ policy.typeNames
  domains : ∀ transition ∈ policy.domainTransitions,
    transition.source ∈ policy.typeNames ∧ transition.target ∈ policy.typeNames
      ∧ transition.entryPoint ∈ policy.typeNames
  booleans : ∀ condition, policy.DependsOn condition →
    ∃ decl, policy.booleans.filter (·.name == condition.boolean) = [decl]

/-- Each capability comes with a rule of its domain, and each domain transition with a change of
type. -/
structure IsAnchored (policy : Policy) : Prop where
  capabilities : ∀ capability ∈ policy.capabilities,
    ∃ rule ∈ policy.allRules, rule.source = capability.domain
  domains : ∀ transition ∈ policy.domainTransitions, ∃ change ∈ policy.typeTransitions,
    change.source = transition.source ∧ change.target = transition.entryPoint
      ∧ change.newType = transition.target

namespace IsAnchored

theorem domain_mem_references (h : policy.IsAnchored) {capability : CapabilityGrant}
    (hmem : capability ∈ policy.capabilities) : capability.domain ∈ policy.references := by
  obtain ⟨rule, hrule, hsource⟩ := h.capabilities capability hmem
  exact mem_references.mpr (Or.inl ⟨rule, hrule, Or.inl hsource.symm⟩)

theorem names_mem_references (h : policy.IsAnchored) {transition : DomainTransition}
    (hmem : transition ∈ policy.domainTransitions) :
    transition.source ∈ policy.references ∧ transition.target ∈ policy.references
      ∧ transition.entryPoint ∈ policy.references := by
  obtain ⟨change, hchange, hsource, hentry, htarget⟩ := h.domains transition hmem
  have hmentions : ∀ name, change.mentions name = true → name ∈ policy.references :=
    fun name hname => mem_references.mpr (Or.inr (Or.inl ⟨change, hchange, hname⟩))
  exact ⟨hmentions _ (mentions_iff.mpr (Or.inl hsource.symm)),
    hmentions _ (mentions_iff.mpr (Or.inr (Or.inr htarget.symm))),
    hmentions _ (mentions_iff.mpr (Or.inr (Or.inl hentry.symm)))⟩

end IsAnchored

/-- The normal form of a policy depends on no other conditions. -/
theorem dependsOn_of_run {optimizer : Optimizer} {condition : Condition}
    (h : (optimizer.run policy).DependsOn condition) : policy.DependsOn condition := by
  rcases h with ⟨block, hblock, rfl⟩ | ⟨transition, htransition, hmem⟩
  · obtain ⟨original, horiginal, hcondition⟩ := Optimizer.exists_block_of_run hblock
    exact Or.inl ⟨original, horiginal, hcondition⟩
  · rw [(Optimizer.sorted_run optimizer policy).2.2.2.2, mem_ofList] at htransition
    exact Or.inr ⟨transition, htransition, hmem⟩

/-- The normal form of a closed and anchored policy is closed. -/
theorem IsClosed.run (h : policy.IsClosed attributes) (hanchored : policy.IsAnchored)
    (optimizer : Optimizer) : (optimizer.run policy).IsClosed attributes where
  names := (Optimizer.isNormal_run optimizer policy).merged.types.names.nodup
  rules := by
    intro kept hkept
    obtain ⟨rule, hrule, hcovers⟩ :=
      (Optimizer.isCoveredBy_run optimizer policy).original kept hkept
    obtain ⟨hsome, -, hsource, htarget⟩ := h.rules rule hrule
    obtain ⟨hkeptsource, hkepttarget, -⟩ := AllowRule.sides_eq_of_isCoveredBy hcovers
    obtain ⟨permission, hpermission⟩ := List.exists_mem_of_ne_nil _ hsome
    have hreferred : ∀ name, name = rule.source ∨ name = rule.target → name ∈ policy.references :=
      fun name hname => mem_references.mpr (Or.inl ⟨rule, hrule, hname⟩)
    rw [← hkeptsource, ← hkepttarget]
    refine ⟨?_, Optimizer.nodup_permissions_run hkept, ?_, ?_⟩
    · exact List.ne_nil_of_mem ((AllowRule.isCoveredBy_iff.mp hcovers).2 permission hpermission)
    · exact Optimizer.mem_typeNames_run optimizer hsource (hreferred _ (Or.inl rfl))
    · exact htarget.mono fun hname =>
        Optimizer.mem_typeNames_run optimizer hname (hreferred _ (Or.inr rfl))
  changes := by
    intro change hchange
    rw [(Optimizer.sorted_run optimizer policy).1, mem_ofList] at hchange
    obtain ⟨hsource, hnew, htarget⟩ := h.changes change hchange
    have hreferred : ∀ name, change.mentions name = true → name ∈ policy.references :=
      fun name hname => mem_references.mpr (Or.inr (Or.inl ⟨change, hchange, hname⟩))
    refine ⟨?_, ?_, fun hprocess => ?_⟩
    · exact Optimizer.mem_typeNames_run optimizer hsource
        (hreferred _ (mentions_iff.mpr (Or.inl rfl)))
    · exact Optimizer.mem_typeNames_run optimizer hnew
        (hreferred _ (mentions_iff.mpr (Or.inr (Or.inr rfl))))
    · exact Optimizer.mem_typeNames_run optimizer (htarget hprocess)
        (hreferred _ (mentions_iff.mpr (Or.inr (Or.inl rfl))))
  contexts := by
    intro entry hentry
    obtain ⟨hstarts, htarget⟩ := h.contexts entry (Optimizer.mem_fileContexts_of_run hentry)
    exact ⟨hstarts, Optimizer.mem_typeNames_of_mem_fileContexts_run hentry htarget⟩
  ports := by
    intro binding hbinding
    rw [(Optimizer.sorted_run optimizer policy).2.2.1, mem_ofList] at hbinding
    obtain ⟨decl, hdecl, hname, hport⟩ := h.ports binding hbinding
    have hreferred : decl.name ∈ policy.references :=
      mem_references.mpr (Or.inr (Or.inr ⟨binding, hbinding, hname.symm⟩))
    obtain ⟨kept, hkept, hkeptname, hlabels⟩ := Optimizer.exists_decl_run optimizer hdecl hreferred
    refine ⟨kept, hkept, hkeptname.trans hname, ?_⟩
    exact List.contains_iff_mem.mpr (hlabels _ (List.contains_iff_mem.mp hport))
  capabilities := by
    intro capability hmem
    rw [(Optimizer.sorted_run optimizer policy).2.1, mem_ofList] at hmem
    exact Optimizer.mem_typeNames_run optimizer (h.capabilities capability hmem)
      (hanchored.domain_mem_references hmem)
  domains := by
    intro transition hmem
    rw [(Optimizer.sorted_run optimizer policy).2.2.2.2, mem_ofList] at hmem
    obtain ⟨hsource, htarget, hentry⟩ := h.domains transition hmem
    obtain ⟨hsource', htarget', hentry'⟩ := hanchored.names_mem_references hmem
    exact ⟨Optimizer.mem_typeNames_run optimizer hsource hsource',
      Optimizer.mem_typeNames_run optimizer htarget htarget',
      Optimizer.mem_typeNames_run optimizer hentry hentry'⟩
  booleans := by
    intro condition hdepends
    obtain ⟨decl, hdecl⟩ := h.booleans condition (dependsOn_of_run hdepends)
    refine ⟨decl, ?_⟩
    rw [(Optimizer.sorted_run optimizer policy).2.2.2.1, filter_ofList, hdecl]
    exact ofList_eq_self (List.pairwise_singleton _ _)

end Policy

end TypeEnforcement
