import TypeEnforcement.Proofs.Compilation.Labels
import TypeEnforcement.Proofs.Generation.Conditions
import TypeEnforcement.Proofs.Rule.Conditions
/-!
# Conditions of a compilation

A row whose rule has a condition adds nothing to the unconditional rules of a compilation. Without
the row the table is read, checked and compiled as before, and the unconditional rules stay the
same: generation makes them of the rules without a condition, and normal form makes its own of
them alone.

The row must have a condition that is one. A field with a lone `!` is not blank, but nothing is read
from it, so the rule of its row is unconditional (`unconditional_loneMark`).

## Main result

* `Row.HasCondition.guards`: what a row with a condition does to a compilation.
-/

namespace TypeEnforcement

variable {options : Options} {generator : Generator} {set other : RuleSet} {row : Row}
  {before after : List Row}

/-! ## Normal form -/

namespace Optimizer

theorem allowRules_eliminated (optimizer : Optimizer) (policy : Policy) :
    (optimizer.eliminated policy).allowRules =
      if optimizer.eliminatesRedundant then
        AllowRule.eliminateRedundant (AllowRule.merge policy.allowRules)
      else AllowRule.merge policy.allowRules := by
  unfold eliminated
  split <;> rfl

/-- The unconditional rules of a normal form depend on the unconditional rules only. -/
theorem allowRules_run_congr (optimizer : Optimizer) {policy another : Policy}
    (h : policy.allowRules = another.allowRules) :
    (optimizer.run policy).allowRules = (optimizer.run another).allowRules := by
  rw [allowRules_run, allowRules_run, allowRules_eliminated, allowRules_eliminated, h]

end Optimizer

/-- The unconditional rules of a policy come from the rules of its table without a condition. -/
theorem Options.allowRules_policyOf_congr (h : set.unconditional = other.unconditional) :
    (options.policyOf generator set).allowRules
      = (options.policyOf generator other).allowRules := by
  have hgenerate : (generator.generate set).allowRules = (generator.generate other).allowRules := by
    rw [← Generator.allowRules_generate_unconditional, h,
      Generator.allowRules_generate_unconditional]
  unfold policyOf
  cases options.optimizer? with
  | none => exact hgenerate
  | some optimizer => exact optimizer.allowRules_run_congr hgenerate

/-! ## Tables -/

namespace RuleSet

/-- A table can be read without one of its rows. If the row makes a rule with a condition, the rules
without a condition and the roles are the same. -/
theorem exists_ofRows_without (hset : ofRows (before ++ row :: after) = .ok set) {rule : Rule}
    (hread : Statement.ofRow row = .ok (.rule rule)) (hcondition : rule.condition ≠ none) :
    ∃ rest, ofRows (before ++ after) = .ok rest ∧ rest.unconditional = set.unconditional := by
  obtain ⟨statements, hstatements, hof⟩ := map_eq_ok_iff.mp hset
  obtain ⟨first, others, hfirst, hothers, happend⟩ := mapM_append_eq_ok_iff.mp hstatements
  obtain ⟨statement, last, hstatement, hlast, hcons⟩ := mapM_cons_eq_ok_iff.mp hothers
  obtain rfl : Statement.rule rule = statement := Except.ok.inj (hread.symm.trans hstatement)
  have hrest : (before ++ after).mapM Statement.ofRow = .ok (first ++ last) :=
    mapM_append_eq_ok_iff.mpr ⟨first, last, hfirst, hlast, rfl⟩
  refine ⟨ofStatements (first ++ last), map_eq_ok_iff.mpr ⟨_, hrest, rfl⟩, ?_⟩
  have hdropped : (rule :: last.filterMap Statement.rule?).filter (·.condition.isNone)
      = (last.filterMap Statement.rule?).filter (·.condition.isNone) :=
    List.filter_cons_of_neg (fun hnone => hcondition (Option.isNone_iff_eq_none.mp hnone))
  have hrule : (Statement.rule rule :: last).filterMap Statement.rule?
      = rule :: last.filterMap Statement.rule? := rfl
  have hrole : (Statement.rule rule :: last).filterMap Statement.role?
      = last.filterMap Statement.role? := rfl
  rw [← hof, happend, hcons]
  simp only [unconditional, ofStatements, List.filterMap_append, List.filter_append, hrule, hrole,
    hdropped]

end RuleSet

/-! ## Compilations -/

/-- A row whose rule has a condition adds nothing to the unconditional rules of a compilation. -/
theorem exists_compile_without {model : Model} {result : Compiled} {rule : Rule}
    (h : compile options model (before ++ row :: after) = .ok result)
    (hread : Statement.ofRow row = .ok (.rule rule)) (hcondition : rule.condition ≠ none) :
    ∃ rest, compile options model (before ++ after) = .ok rest
      ∧ rest.policy.allowRules = result.policy.allowRules := by
  obtain ⟨generator, set, hgenerator, hset, ⟨hmodel, hcheck⟩, hpolicy⟩ :=
    exists_compile_iff.mp ⟨result, h, rfl⟩
  obtain ⟨rest, hrest, hsame⟩ := RuleSet.exists_ofRows_without hset hread hcondition
  have hchecks : ∀ rule ∈ rest.rules, rule.check options.extendedGlobs = .ok () := by
    intro rule hrule
    obtain ⟨found, hfound, hok⟩ := (RuleSet.mem_rules_iff hrest).mp hrule
    have hfewer : (before ++ after).Sublist (before ++ row :: after) :=
      (List.sublist_cons_self row after).append_left before
    exact hcheck rule ((RuleSet.mem_rules_iff hset).mpr ⟨found, hfewer.subset hfound, hok⟩)
  obtain ⟨compiled, hcompiled, heq⟩ :=
    exists_compile_iff.mpr ⟨generator, rest, hgenerator, hrest, ⟨hmodel, hchecks⟩, rfl⟩
  refine ⟨compiled, hcompiled, ?_⟩
  rw [heq, ← hpolicy]
  exact Options.allowRules_policyOf_congr hsame

/-- A row whose field for a condition is neither blank nor a lone `!` makes a rule with a condition,
if it can be read, and adds nothing to the unconditional rules of any compilation. -/
theorem Row.HasCondition.guards {text : String} (h : row.HasCondition text)
    (hblank : Text.allBlank text = false) (hlone : Text.trim text ≠ "!") :
    (∀ statement, Statement.ofRow row = .ok statement →
        ∃ rule condition, statement = .rule rule ∧ rule.condition = some condition)
      ∧ ∀ options model before after result,
          compile options model (before ++ row :: after) = .ok result →
            ∃ rest, compile options model (before ++ after) = .ok rest
              ∧ rest.policy.allowRules = result.policy.allowRules := by
  have hcondition : ∀ statement, Statement.ofRow row = .ok statement →
      ∃ rule condition, statement = .rule rule ∧ rule.condition = some condition :=
    fun statement hread => h.exists_condition hblank hlone hread
  refine ⟨hcondition, ?_⟩
  intro options model before after result hresult
  obtain ⟨generator, set, -, hset, -⟩ := exists_compile_iff.mp ⟨result, hresult, rfl⟩
  have hreadable := RuleSet.exists_ofRows_iff.mp ⟨set, hset⟩
  obtain ⟨statement, hread⟩ := hreadable row (List.mem_append_right _ List.mem_cons_self)
  obtain ⟨rule, condition, hrule, hsome⟩ := hcondition statement hread
  rw [hrule] at hread
  refine exists_compile_without hresult hread ?_
  rw [hsome]
  exact Option.some_ne_none condition

/-- A row that allows to read, whatever the booleans are. -/
def openRow : Row :=
  ⟨"p", ["web", "/srv/www/*", "read", "allow"], some 1⟩

/-- A change of domain while a boolean is off. -/
def guardedTransition : Row :=
  ⟨"p2", ["init", "/usr/sbin/web_bin", "transition", "web", " ! strict"], some 2⟩

theorem guards_guardedTransition :
    ∃ result rest, compile {} .standard ([openRow] ++ guardedTransition :: []) = .ok result
      ∧ compile {} .standard ([openRow] ++ []) = .ok rest
      ∧ rest.policy.allowRules = result.policy.allowRules := by
  have hfield : guardedTransition.HasCondition " ! strict" :=
    .transition "init" "/usr/sbin/web_bin" "transition" "web" " ! strict" (some 2)
  have hblank : Text.allBlank " ! strict" = false := by decide +kernel
  have hlone : Text.trim " ! strict" ≠ "!" := by decide +kernel
  have hok : (compile {} .standard ([openRow] ++ guardedTransition :: [])).isOk = true := by
    decide +kernel
  obtain ⟨result, hresult⟩ := exists_of_isOk hok
  obtain ⟨rest, hrest, hsame⟩ := (hfield.guards hblank hlone).2 _ _ _ _ _ hresult
  exact ⟨result, rest, hresult, hrest, hsame⟩

/-- A row whose field for a condition holds a lone `!`. -/
def loneMark : Row :=
  ⟨"p", ["web_t", "/srv/x", "read", "", "allow", "!"], some 1⟩

/-- Nothing is read from a lone `!`, so the rule of its row is unconditional. -/
theorem unconditional_loneMark :
    loneMark.HasCondition "!" ∧ Text.allBlank "!" = false
      ∧ (∃ rule, Statement.ofRow loneMark = .ok (.rule rule) ∧ rule.condition = none)
      ∧ ∃ result, compile {} .standard [loneMark] = .ok result
          ∧ result.policy.allowRules ≠ [] := by
  have hcompiles : ((compile {} .standard [loneMark]).toOption.map fun result =>
      decide (result.policy.allowRules ≠ [])) = some true := by
    decide +kernel
  obtain ⟨result, hresult, hrules⟩ := Option.map_eq_some_iff.mp hcompiles
  refine ⟨.policy "web_t" "/srv/x" "read" "" "allow" "!" (some 1), by decide +kernel, ?_, ?_⟩
  · exact ⟨.ofPolicyFields "web_t" "/srv/x" "read" "" "allow" "!" (some 1), by decide +kernel,
      by decide +kernel⟩
  · exact ⟨result, toOption_eq_some_iff.mp hresult, of_decide_eq_true hrules⟩

end TypeEnforcement
