import TypeEnforcement.Proofs.Generation.Grants
/-!
# Domain transitions of a generated policy

A record of a domain transition says that a process changes its domain when it executes the entry
point. For this the policy must change the type of the process, and it must grant what the change
takes (`DomainTransition.accesses`), under the conditions of the record. The rules inferred for a
change grant just that, and they are inferred together with the record.

## Main results

* `Generator.supports_generate`: a generated policy supports the transitions that it records.
* `Generator.exists_domainTransition_generate`: it records its changes of domain by programs.
-/

namespace TypeEnforcement

/-! ## Support -/

/-- The accesses that a domain transition takes: the source runs the entry point and makes the
change, the target enters there, signals its parent, and signals and forks itself. -/
def DomainTransition.accesses (transition : DomainTransition) : List Access :=
  ["execute", "read", "getattr", "open"].map
      (Access.mk transition.source transition.entryPoint "file")
    ++ ["entrypoint"].map (Access.mk transition.target transition.entryPoint "file")
    ++ ["transition"].map (Access.mk transition.source transition.target "process")
    ++ ["sigchld"].map (Access.mk transition.target transition.source "process")
    ++ ["fork", "sigchld", "signal"].map (Access.mk transition.target "self" "process")

/-- Whether a policy makes a domain transition that it records work: two domains differ, the entry
point is a program, the type of the process is changed there, and all accesses that it takes are
granted while its conditions hold. -/
structure Policy.Supports (policy : Policy) (transition : DomainTransition) : Prop where
  differ : transition.source ≠ transition.target
  program : TypeName.isProgram transition.entryPoint = true
  change : ⟨transition.source, transition.entryPoint, "process", transition.target⟩
    ∈ policy.typeTransitions
  granted : ∀ values, (∀ condition ∈ transition.conditions, condition.holds values = true) →
    ∀ access ∈ transition.accesses, access ∈ policy.grants values

/-- The rules inferred from a change of domain give the accesses that it takes. -/
theorem Inference.exists_rulesFor_of_mem_accesses {declared : DeclaredTransition} {access : Access}
    (h : access ∈ (transitionOf declared).accesses) :
    ∃ allow ∈ rulesFor declared, access ∈ allow.accesses := by
  simp only [DomainTransition.accesses, List.mem_append, or_assoc] at h
  simp only [rulesFor, List.mem_cons, List.not_mem_nil, or_false, exists_eq_or_imp,
    exists_eq_left, AllowRule.accesses_of_iff]
  exact h

namespace Generator

variable {generator : Generator} {set : RuleSet} {rule : Rule} {clause : TransitionClause}

/-- A generated policy changes types as the rules of its table ask. -/
theorem mem_typeTransitions_generate {change : TypeTransition} :
    change ∈ (generator.generate set).typeTransitions ↔
      ∃ rule ∈ set.rules, ∃ clause, rule.transition = some clause
        ∧ generator.typeChangeOf rule clause = change :=
  mem_typeTransitions_fragment

/-! ## Records -/

/-- A generated policy records the changes of domain between different domains by way of a program,
if domain transitions are inferred. -/
theorem mem_domainTransitions_generate {transition : DomainTransition} :
    transition ∈ (generator.generate set).domainTransitions ↔
      generator.infersTransitions = true
        ∧ ∃ declared ∈ (generator.fragment set).declared,
            declared.source ≠ declared.newDomain
              ∧ TypeName.isProgram declared.entryPoint = true
              ∧ Inference.transitionOf declared = transition := by
  have hgenerate : (generator.generate set).domainTransitions
      = (generator.inference (generator.fragment set)).transitions := rfl
  rw [hgenerate, inference]
  by_cases hinfers : generator.infersTransitions = true
  · rw [if_pos hinfers, Inference.mem_transitions_run, and_iff_right hinfers]
    refine exists_congr fun declared => and_congr_right fun hdeclared => ?_
    rw [Inference.rejection?_eq_none_iff, canExecute_of_declared hdeclared, and_assoc, and_assoc,
      and_iff_right rfl]
  · simp [hinfers, Inference.empty]

/-- A generated policy supports the domain transitions that it records. -/
theorem supports_generate {transition : DomainTransition}
    (h : transition ∈ (generator.generate set).domainTransitions) :
    (generator.generate set).Supports transition := by
  obtain ⟨hinfers, declared, hdeclared, hdiffer, hprogram, rfl⟩ :=
    mem_domainTransitions_generate.mp h
  obtain ⟨rule, hrule, clause, hclause, hprocess, rfl⟩ := mem_declared_fragment.mp hdeclared
  refine ⟨hdiffer, hprogram, ?_, ?_⟩
  · refine mem_typeTransitions_generate.mpr ⟨rule, hrule, clause, hclause, ?_⟩
    rw [typeChangeOf, show clause.objectClass = "process" from beq_iff_eq.mp hprocess]
    rfl
  · -- The inferred rules stand under the condition of the rule, and so does the record.
    intro values hholds access haccess
    obtain ⟨allow, hallow, hgives⟩ := Inference.exists_rulesFor_of_mem_accesses haccess
    have hactive : rule.isActive values = true := by
      rw [Rule.isActive, Option.all_eq_true]
      exact fun condition hcondition => hholds condition (Option.mem_toList.mpr hcondition)
    refine Fragment.mem_grants_toPolicy.mpr (GuardedRule.grant_append.mpr (Or.inr ?_))
    exact grant_inference.mpr ⟨rule, hrule, clause, hclause, hactive, hprocess, hinfers, hprogram,
      hdiffer, allow, hallow, hgives⟩

/-- A change of domain of a generated policy is recorded, if its domains differ and its entry point
is a program. -/
theorem exists_domainTransition_generate (hinfers : generator.infersTransitions = true)
    {change : TypeTransition} (h : change ∈ (generator.generate set).typeTransitions)
    (hprocess : change.objectClass = "process") (hdiffer : change.source ≠ change.newType)
    (hprogram : TypeName.isProgram change.target = true) :
    ∃ transition ∈ (generator.generate set).domainTransitions,
      transition.source = change.source ∧ transition.entryPoint = change.target
        ∧ transition.target = change.newType := by
  obtain ⟨rule, hrule, clause, hclause, rfl⟩ := mem_typeTransitions_generate.mp h
  have hdeclared : generator.changeOf rule clause ∈ (generator.fragment set).declared :=
    mem_declared_fragment.mpr ⟨rule, hrule, clause, hclause, beq_iff_eq.mpr hprocess, rfl⟩
  refine ⟨Inference.transitionOf (generator.changeOf rule clause), ?_, rfl, rfl, rfl⟩
  exact mem_domainTransitions_generate.mpr
    ⟨hinfers, generator.changeOf rule clause, hdeclared, hdiffer, hprogram, rfl⟩

end Generator

end TypeEnforcement
