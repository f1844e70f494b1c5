import TypeEnforcement.Canonical.Lemmas
import TypeEnforcement.Transition.Inference
/-!
# What is inferred

From which declarations something is inferred, in terms of the rules that the grants were made
of. `ExecuteGrants.canExecute_ofRules` reads the grants back as rules, and `Inference.mem_rules_run`
says that each accepted declaration contributes its rules, under its condition.
-/

namespace TypeEnforcement

namespace ExecuteGrants

theorem counts_iff {rule : AllowRule} :
    counts rule = true ↔
      rule.objectClass = ObjectClass.file ∧ executePermission ∈ rule.permissions := by
  simp only [counts, AllowRule.hasPermission, Bool.and_eq_true, beq_iff_eq,
    List.contains_iff_mem]

theorem canExecute_record {grants : ExecuteGrants} {rule : AllowRule}
    {domain entryPoint : String} :
    (grants.record rule).canExecute domain entryPoint = true ↔
      grants.canExecute domain entryPoint = true
        ∨ (counts rule = true ∧ rule.source = domain ∧ rule.target = entryPoint) := by
  unfold record
  by_cases hcounts : counts rule = true
  · rw [if_pos hcounts]
    simp only [canExecute, List.contains_iff_mem, List.mem_cons, Prod.mk.injEq, hcounts, true_and,
      @eq_comm _ domain, @eq_comm _ entryPoint]
    exact or_comm
  · rw [if_neg hcounts]
    simp [hcounts]

theorem canExecute_foldl {rules : List AllowRule} {grants : ExecuteGrants}
    {domain entryPoint : String} :
    (rules.foldl record grants).canExecute domain entryPoint = true ↔
      grants.canExecute domain entryPoint = true
        ∨ ∃ rule ∈ rules, counts rule = true ∧ rule.source = domain
            ∧ rule.target = entryPoint := by
  induction rules generalizing grants with
  | nil => simp
  | cons rule rules ih =>
    rw [List.foldl_cons, ih, canExecute_record, or_assoc]
    simp only [List.mem_cons, exists_eq_or_imp]

/-- A domain may execute an entry point if some rule lets it. -/
theorem canExecute_ofRules {rules : List AllowRule} {domain entryPoint : String} :
    (ofRules rules).canExecute domain entryPoint = true ↔
      ∃ rule ∈ rules, counts rule = true ∧ rule.source = domain ∧ rule.target = entryPoint := by
  rw [ofRules, canExecute_foldl]
  simp [canExecute, empty]

end ExecuteGrants

namespace Inference

variable {grants others : ExecuteGrants} {declared : List DeclaredTransition}

/-- The three conditions under which a declaration is accepted. -/
theorem rejection?_eq_none_iff {d : DeclaredTransition} :
    rejection? grants d = none ↔
      d.source ≠ d.newDomain ∧ TypeName.isProgram d.entryPoint = true
        ∧ grants.canExecute d.source d.entryPoint = true := by
  unfold rejection?
  by_cases hsame : d.source = d.newDomain
  · simp [hsame]
  · by_cases hprogram : TypeName.isProgram d.entryPoint = true
    · by_cases hexecute : grants.canExecute d.source d.entryPoint = true <;>
        simp [hsame, hprogram, hexecute]
    · simp [hsame, hprogram]

theorem mem_accepted {d : DeclaredTransition} :
    d ∈ accepted grants declared ↔ d ∈ declared ∧ rejection? grants d = none := by
  simp only [accepted, Canonical.mem_distinct, List.mem_filter, Option.isNone_iff_eq_none]

/-- Each accepted declaration contributes its rules, under its condition. -/
theorem mem_rules_run {guarded : GuardedRule} :
    guarded ∈ (run grants declared).rules ↔
      ∃ d ∈ declared, rejection? grants d = none ∧ guarded.condition = d.condition
        ∧ guarded.rule ∈ rulesFor d := by
  simp only [run, List.mem_flatMap, List.mem_map, mem_accepted]
  constructor
  · intro hexists
    obtain ⟨d, ⟨hdeclared, haccepted⟩, rule, hrule, rfl⟩ := hexists
    exact ⟨d, hdeclared, haccepted, rfl, hrule⟩
  · intro hexists
    obtain ⟨d, hdeclared, haccepted, hcondition, hrule⟩ := hexists
    exact ⟨d, ⟨hdeclared, haccepted⟩, guarded.rule, hrule, by rw [← hcondition]⟩

/-- Each accepted declaration is recorded. -/
theorem mem_transitions_run {transition : DomainTransition} :
    transition ∈ (run grants declared).transitions ↔
      ∃ d ∈ declared, rejection? grants d = none ∧ transitionOf d = transition := by
  simp only [run, List.mem_map, mem_accepted, and_assoc]

theorem rejection?_congr (h : ∀ domain entryPoint,
      grants.canExecute domain entryPoint = others.canExecute domain entryPoint)
    (declared : DeclaredTransition) : rejection? grants declared = rejection? others declared := by
  simp only [rejection?, h]

theorem run_congr (h : ∀ d ∈ declared, rejection? grants d = rejection? others d) :
    run grants declared = run others declared := by
  have haccepted : accepted grants declared = accepted others declared := by
    rw [accepted, accepted]
    exact congrArg _ (List.filter_congr fun d hd => by rw [h d hd])
  rw [run, run, haccepted]

end Inference

end TypeEnforcement
