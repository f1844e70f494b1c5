import TypeEnforcement.Proofs.Compilation.Labels
import TypeEnforcement.Proofs.Generation.DomainTransitions
import TypeEnforcement.Proofs.Policy.Meaning
/-!
# Domain transitions of a compilation

The normal form sorts the records and the changes of type of a policy, and it loses nothing that the
policy grants, under no values of the booleans. So it supports the domain transitions that the
generated policy supports, and a compilation neither records one that does not work nor leaves one
out.

## Main result

* `supports_of_compile`: the domain transitions in the result of a compilation.
-/

namespace TypeEnforcement

variable {options : Options} {generator : Generator} {set : RuleSet} {values : String → Bool}
  {transition : DomainTransition}

namespace Options

theorem infersTransitions_of_generator (h : options.generator = .ok generator) :
    generator.infersTransitions = options.infersTransitions := by
  obtain ⟨actions, -, rfl⟩ := map_eq_ok_iff.mp h
  rfl

/-! ## Normal form -/

theorem mem_domainTransitions_policyOf :
    transition ∈ (options.policyOf generator set).domainTransitions ↔
      transition ∈ (generator.generate set).domainTransitions := by
  rcases options.policyOf_cases generator set with heq | ⟨optimizer, heq⟩
  · rw [heq]
  · rw [heq, (Optimizer.sorted_run optimizer _).2.2.2.2, Canonical.mem_ofList]

theorem mem_grants_policyOf {access : Access}
    (h : access ∈ (generator.generate set).grants values) :
    access ∈ (options.policyOf generator set).grants values := by
  rcases options.policyOf_cases generator set with heq | ⟨optimizer, heq⟩
  · rw [heq]
    exact h
  · rw [heq, Optimizer.grants_run, Optimizer.mem_grants_eliminated_iff]
    exact Access.Follows.granted h

theorem supports_policyOf (h : (generator.generate set).Supports transition) :
    (options.policyOf generator set).Supports transition where
  differ := h.differ
  program := h.program
  change := mem_typeTransitions_policyOf.mpr h.change
  granted := fun values hholds access haccess =>
    mem_grants_policyOf (h.granted values hholds access haccess)

end Options

/-! ## Compilations -/

/-- The result of a compilation that infers domain transitions supports those that it records, and
it records one for each change of a process's type between different domains by way of a program. -/
theorem supports_of_compile {model : Model} {rows : List Row} {result : Compiled}
    (h : compile options model rows = .ok result) (hinfers : options.infersTransitions = true) :
    (∀ transition ∈ result.policy.domainTransitions, result.policy.Supports transition)
      ∧ ∀ change ∈ result.policy.typeTransitions, change.objectClass = "process" →
          change.source ≠ change.newType → TypeName.isProgram change.target = true →
          ∃ transition ∈ result.policy.domainTransitions,
            transition.source = change.source ∧ transition.entryPoint = change.target
              ∧ transition.target = change.newType := by
  obtain ⟨generator, set, hgenerator, -, -, hpolicy⟩ := exists_compile_iff.mp ⟨result, h, rfl⟩
  have hgenerates : generator.infersTransitions = true :=
    (Options.infersTransitions_of_generator hgenerator).trans hinfers
  rw [← hpolicy]
  refine ⟨?supported, ?recorded⟩
  case supported =>
    intro transition htransition
    have hgenerated := Options.mem_domainTransitions_policyOf.mp htransition
    exact Options.supports_policyOf (Generator.supports_generate hgenerated)
  case recorded =>
    intro change hchange hprocess hdiffer hprogram
    have hgenerated := Options.mem_typeTransitions_policyOf.mp hchange
    obtain ⟨transition, htransition, hfields⟩ :=
      Generator.exists_domainTransition_generate hgenerates hgenerated hprocess hdiffer hprogram
    exact ⟨transition, Options.mem_domainTransitions_policyOf.mpr htransition, hfields⟩

/-- A change of domain while a boolean is on. -/
def switchedTransition : Row :=
  ⟨"p2", ["init", "httpd_exec_t", "transition", "httpd", "web_on"], some 1⟩

/-- The change is recorded under its condition, and it works while the boolean is on. -/
theorem supports_of_compile_switchedTransition :
    ∃ result, compile {} .standard [switchedTransition] = .ok result
      ∧ ∃ transition ∈ result.policy.domainTransitions,
          transition.source = "init_t" ∧ transition.target = "httpd_t"
            ∧ result.policy.Supports transition := by
  have hcompiles : ((compile {} .standard [switchedTransition]).toOption.map fun result =>
      decide (⟨"init_t", "httpd_exec_t", "process", "httpd_t"⟩ ∈ result.policy.typeTransitions))
        = some true := by
    decide +kernel
  obtain ⟨result, hresult, hchange⟩ := Option.map_eq_some_iff.mp hcompiles
  have h : compile {} .standard [switchedTransition] = .ok result :=
    toOption_eq_some_iff.mp hresult
  obtain ⟨hsupports, hrecords⟩ := supports_of_compile h rfl
  obtain ⟨transition, htransition, hsource, -, htarget⟩ :=
    hrecords _ (of_decide_eq_true hchange) rfl (by decide) (by decide)
  exact ⟨result, h, transition, htransition, hsource, htarget, hsupports transition htransition⟩

end TypeEnforcement
