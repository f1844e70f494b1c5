import TypeEnforcement.Proofs.Compilation.Labels
import TypeEnforcement.Proofs.Generation.Capabilities
import TypeEnforcement.Proofs.Policy.Meaning
/-!
# Capabilities of a compilation

The list of capabilities carries no conditions, so for some values of the booleans it is longer than
what the policy gives (`exists_not_backs_guardedCapability`). It is what the policy gives for all
values together: a listed capability is backed while one of the rows that list it is in force, and
every condition holds for some values.

## Main result

* `backs_iff_of_compile`: when the result of a compilation lists a capability, and when it backs it.
-/

namespace TypeEnforcement

variable {options : Options} {generator : Generator} {set : RuleSet} {grant : CapabilityGrant}
  {values : String → Bool}

/-! ## Normal form -/

/-- The classes of capabilities are none of a file system. -/
theorem ObjectClass.isFileLike_of_isCapability {objectClass : String}
    (h : isCapability objectClass = true) : isFileLike objectClass = false := by
  rw [isCapability, Bool.or_eq_true, beq_iff_eq, beq_iff_eq] at h
  rcases h with rfl | rfl <;> rfl

/-- Nothing follows from granted accesses to capabilities but these accesses. -/
theorem Access.follows_access_iff {granted : List Access} {objectClass : String}
    (hclass : ObjectClass.isCapability objectClass = true) :
    Follows granted (grant.access objectClass) ↔ grant.access objectClass ∈ granted := by
  rw [follows_iff]
  constructor
  · intro hexists
    obtain ⟨given, hmem, hsame | ⟨-, hfile, -⟩⟩ := hexists
    · have hgiven : given = grant.capability := hsame.symm
      rw [hgiven] at hmem
      exact hmem
    · have hother : ObjectClass.isFileLike objectClass = false :=
        ObjectClass.isFileLike_of_isCapability hclass
      exact absurd (hother.symm.trans hfile) Bool.false_ne_true
  · exact fun hmem => ⟨grant.capability, hmem, AllowRule.Implies.refl _ _⟩

/-- The normal form backs the capabilities that the policy backs. -/
theorem Optimizer.backs_run_iff {optimizer : Optimizer} {policy : Policy} :
    (optimizer.run policy).Backs values grant ↔ policy.Backs values grant := by
  rw [Policy.backs_iff, Policy.backs_iff, grants_run]
  refine exists_congr fun objectClass => and_congr_right fun hclass => ?_
  rw [mem_grants_eliminated_iff, Access.follows_access_iff hclass]

namespace Options

theorem backs_policyOf_iff :
    (options.policyOf generator set).Backs values grant ↔
      (generator.generate set).Backs values grant := by
  rcases options.policyOf_cases generator set with heq | ⟨optimizer, heq⟩
  · rw [heq]
  · rw [heq, Optimizer.backs_run_iff]

theorem mem_capabilities_policyOf :
    grant ∈ (options.policyOf generator set).capabilities ↔
      grant ∈ (generator.generate set).capabilities := by
  rcases options.policyOf_cases generator set with heq | ⟨optimizer, heq⟩
  · rw [heq]
  · rw [heq, (Optimizer.sorted_run optimizer _).2.1, Canonical.mem_ofList]

end Options

/-! ## Compilations -/

/-- A condition holds for some values of the booleans, and so does none. -/
theorem Rule.exists_isActive (rule : Rule) : ∃ values, rule.isActive values = true := by
  cases hcondition : rule.condition with
  | none => exact ⟨fun _ => false, by rw [isActive, hcondition, Option.all_none]⟩
  | some condition =>
    refine ⟨fun _ => !condition.negated, ?_⟩
    rw [isActive, hcondition, Option.all_some, Condition.holds]
    cases condition.negated <;> rfl

/-- The result of a compilation lists the capabilities of its allow rows, whatever their conditions.
It backs one of them exactly while some row that lists it has no condition or one that holds; so
what is listed is what is backed for some values of the booleans. -/
theorem backs_iff_of_compile {model : Model} {rows : List Row} {result : Compiled}
    (h : compile options model rows = .ok result) (grant : CapabilityGrant) :
    ∃ generator, options.generator = .ok generator
      ∧ (grant ∈ result.policy.capabilities ↔
          ∃ row ∈ rows, ∃ rule, Statement.ofRow row = .ok (.rule rule)
            ∧ generator.ListsCapability rule grant)
      ∧ (grant ∈ result.policy.capabilities ↔ ∃ values, result.policy.Backs values grant)
      ∧ ∀ values, result.policy.Backs values grant ↔
          ∃ row ∈ rows, ∃ rule, Statement.ofRow row = .ok (.rule rule)
            ∧ generator.ListsCapability rule grant ∧ rule.isActive values = true := by
  obtain ⟨generator, set, hgenerator, hset, -, hpolicy⟩ := exists_compile_iff.mp ⟨result, h, rfl⟩
  have hlisted : grant ∈ result.policy.capabilities ↔
      ∃ rule ∈ set.rules, generator.ListsCapability rule grant := by
    rw [← hpolicy, Options.mem_capabilities_policyOf, Generator.mem_capabilities_generate]
  have hbacked : ∀ values, result.policy.Backs values grant ↔
      ∃ rule ∈ set.rules, generator.ListsCapability rule grant
        ∧ rule.isActive values = true := by
    intro values
    rw [← hpolicy, Options.backs_policyOf_iff, Generator.backs_generate_iff]
  refine ⟨generator, hgenerator, ?_, ?_, fun values => ?_⟩
  · rw [hlisted, RuleSet.exists_mem_rules_iff hset]
  · rw [hlisted]
    constructor
    · intro hexists
      obtain ⟨rule, hrule, hlists⟩ := hexists
      obtain ⟨values, hactive⟩ := rule.exists_isActive
      exact ⟨values, (hbacked values).mpr ⟨rule, hrule, hlists, hactive⟩⟩
    · intro hexists
      obtain ⟨values, hbacks⟩ := hexists
      obtain ⟨rule, hrule, hlists, -⟩ := (hbacked values).mp hbacks
      exact ⟨rule, hrule, hlists⟩
  · rw [hbacked, RuleSet.exists_mem_rules_iff hset]

/-- A row that gives a capability while a boolean is on. -/
def guardedCapability : Row :=
  ⟨"p", ["web_t", "web_t", "net_admin", "capability", "allow", "strict"], some 1⟩

theorem backs_iff_of_compile_guardedCapability :
    ∃ result, compile {} .standard [guardedCapability] = .ok result
      ∧ (∃ values, result.policy.Backs values ⟨"web_t", "net_admin"⟩)
      ∧ ∀ values, result.policy.Backs values ⟨"web_t", "net_admin"⟩ → values "strict" = true := by
  have hcompiles : ((compile {} .standard [guardedCapability]).toOption.map fun result =>
      decide (⟨"web_t", "net_admin"⟩ ∈ result.policy.capabilities)) = some true := by
    decide +kernel
  obtain ⟨result, hresult, hlisted⟩ := Option.map_eq_some_iff.mp hcompiles
  have h : compile {} .standard [guardedCapability] = .ok result :=
    toOption_eq_some_iff.mp hresult
  obtain ⟨_, -, -, hlists, hbacks⟩ := backs_iff_of_compile h ⟨"web_t", "net_admin"⟩
  refine ⟨result, h, hlists.mp (of_decide_eq_true hlisted), ?_⟩
  intro values hbacked
  obtain ⟨row, hrow, rule, hread, -, hactive⟩ := (hbacks values).mp hbacked
  rw [List.mem_singleton.mp hrow] at hread
  have hrule : Statement.ofRow guardedCapability = .ok (.rule
      (.ofPolicyFields "web_t" "web_t" "net_admin" "capability" "allow" "strict" (some 1))) := by
    decide +kernel
  have hcondition : Condition.ofText? "strict" = some ⟨"strict", false⟩ := by decide +kernel
  rw [hrule] at hread
  cases hread
  simpa [Rule.isActive, Rule.ofPolicyFields, hcondition, Condition.holds] using hactive

/-- The capability of a row with a condition is listed, and it is not backed while the boolean is
off. -/
theorem exists_not_backs_guardedCapability :
    ∃ result, compile {} .standard [guardedCapability] = .ok result
      ∧ ∃ grant ∈ result.policy.capabilities, ¬ result.policy.Backs (fun _ => false) grant := by
  have hcompiles : ((compile {} .standard [guardedCapability]).toOption.map fun result =>
      decide (∃ grant ∈ result.policy.capabilities,
        ¬ result.policy.Backs (fun _ => false) grant)) = some true := by
    decide +kernel
  obtain ⟨result, hresult, hunbacked⟩ := Option.map_eq_some_iff.mp hcompiles
  exact ⟨result, toOption_eq_some_iff.mp hresult, of_decide_eq_true hunbacked⟩

end TypeEnforcement
