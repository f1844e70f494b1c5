import Mathlib.Data.List.Basic
import Mathlib.Data.List.Flatten
import TypeEnforcement.Proofs.Transition.Inference
/-!
# Inference from recorded rules

What is inferred from declarations depends on the rules that were recorded, but only on which domain
they let execute what. So neither their order nor their repetition counts, and more of them infer no
less (`Inference.accepted_sublist`).

The rules that are inferred let a domain execute something, too, and could thereby allow further
inferences when they are recorded in their turn. They do not: the one of them that lets a domain
execute a file repeats what made its declaration acceptable
(`Inference.canExecute_foldl_rules_run`).

## Main result

* `Inference.run_ofRules`: what is inferred, and what it depends on.
-/

namespace TypeEnforcement

open Canonical (IsDistinctOf)

/-! ## Supported declarations -/

/-- Whether rules support a declared change of domain: the domains differ, the entry point is a
program, and some rule lets the source execute it. -/
def DeclaredTransition.IsSupported (declared : DeclaredTransition) (rules : List AllowRule) :
    Prop :=
  declared.source ≠ declared.newDomain ∧ TypeName.isProgram declared.entryPoint = true
    ∧ ∃ rule ∈ rules, rule.objectClass = ObjectClass.file ∧ executePermission ∈ rule.permissions
        ∧ rule.source = declared.source ∧ rule.target = declared.entryPoint

instance (declared : DeclaredTransition) (rules : List AllowRule) :
    Decidable (declared.IsSupported rules) :=
  inferInstanceAs (Decidable (_ ∧ _ ∧ _))

namespace Inference

variable {grants others : ExecuteGrants} {declared : List DeclaredTransition}
  {d : DeclaredTransition} {recorded rules : List AllowRule}

theorem rejection?_ofRules_eq_none_iff :
    rejection? (.ofRules recorded) d = none ↔ d.IsSupported recorded := by
  simp only [rejection?_eq_none_iff, ExecuteGrants.canExecute_ofRules, ExecuteGrants.counts_iff,
    DeclaredTransition.IsSupported, and_assoc]

/-- The supported declarations are accepted, each once and in the order of first occurrence. -/
theorem isDistinctOf_accepted (recorded : List AllowRule) (declared : List DeclaredTransition) :
    IsDistinctOf (accepted (.ofRules recorded) declared)
      (declared.filter fun d => decide (d.IsSupported recorded)) := by
  have hfilter : (declared.filter fun d => (rejection? (.ofRules recorded) d).isNone)
      = declared.filter fun d => decide (d.IsSupported recorded) := by
    refine List.filter_congr fun d _ => ?_
    rw [Bool.eq_iff_iff, Option.isNone_iff_eq_none, rejection?_ofRules_eq_none_iff,
      decide_eq_true_iff]
  rw [accepted, hfilter]
  exact Canonical.isDistinctOf_distinct _

/-- The rules that a change of domain needs to work, under its condition. -/
def workingRules (declared : DeclaredTransition) : List GuardedRule :=
  let guarded (source target objectClass : String) (permissions : List String) : GuardedRule :=
    { condition := declared.condition, rule := { source, target, objectClass, permissions } }
  [ guarded declared.source declared.entryPoint "file" ["execute", "read", "getattr", "open"],
    guarded declared.newDomain declared.entryPoint "file" ["entrypoint"],
    guarded declared.source declared.newDomain "process" ["transition"],
    guarded declared.newDomain declared.source "process" ["sigchld"],
    guarded declared.newDomain "self" "process" ["fork", "sigchld", "signal"]]

theorem workingRules_eq (d : DeclaredTransition) :
    workingRules d = (rulesFor d).map fun rule => { condition := d.condition, rule } := by
  simp [workingRules, rulesFor, AllowRule.of, Canonical.distinct, executePermission,
    AllowRule.selfTarget, ObjectClass.file, ObjectClass.process]

/-! ## More rules -/

/-- What is accepted stays accepted if no declaration is rejected that was not before. -/
theorem accepted_sublist (h : ∀ d, rejection? grants d = none → rejection? others d = none) :
    (accepted grants declared).Sublist (accepted others declared) := by
  -- leaving repetitions out does not keep sublists in general, so that is done before the filter
  rw [accepted, accepted, ← Canonical.filter_distinct, ← Canonical.filter_distinct]
  refine List.monotone_filter_right _ fun d hd => ?_
  rw [Option.isNone_iff_eq_none] at hd ⊢
  exact h d hd

theorem run_sublist (h : ∀ d, rejection? grants d = none → rejection? others d = none) :
    (run grants declared).transitions.Sublist (run others declared).transitions
      ∧ (run grants declared).rules.Sublist (run others declared).rules :=
  ⟨(accepted_sublist h).map _, (accepted_sublist h).flatMap _⟩

theorem rejection?_foldl_record (rules : List AllowRule) (h : rejection? grants d = none) :
    rejection? (rules.foldl .record grants) d = none := by
  rw [rejection?_eq_none_iff] at h ⊢
  exact ⟨h.1, h.2.1, ExecuteGrants.canExecute_foldl.mpr (Or.inl h.2.2)⟩

/-! ## Inferred rules -/

/-- Of the rules for a change of domain, only the one for its entry point lets a domain execute a
file. -/
theorem sides_eq_of_counts {rule : AllowRule} (h : rule ∈ rulesFor d)
    (hcounts : ExecuteGrants.counts rule = true) :
    rule.source = d.source ∧ rule.target = d.entryPoint := by
  obtain ⟨hfile, hexecute⟩ := ExecuteGrants.counts_iff.mp hcounts
  simp only [rulesFor, List.mem_cons, List.not_mem_nil, or_false] at h
  rcases h with rfl | rfl | rfl | rfl | rfl
  · exact ⟨rfl, rfl⟩
  · exact absurd hexecute (by simp [AllowRule.of, Canonical.distinct, executePermission])
  all_goals exact absurd hfile (by simp [AllowRule.of, ObjectClass.file, ObjectClass.process])

/-- What is inferred lets no domain execute what it may not execute already. -/
theorem canExecute_foldl_rules_run (grants : ExecuteGrants) (declared : List DeclaredTransition)
    (domain entryPoint : String) :
    (((run grants declared).rules.map (·.rule)).foldl .record grants).canExecute domain entryPoint
      = grants.canExecute domain entryPoint := by
  rw [Bool.eq_iff_iff, ExecuteGrants.canExecute_foldl, or_iff_left_iff_imp]
  intro hexists
  obtain ⟨rule, hrule, hcounts, rfl, rfl⟩ := hexists
  obtain ⟨guarded, hguarded, rfl⟩ := List.mem_map.mp hrule
  obtain ⟨d, -, haccepted, -, hneeded⟩ := mem_rules_run.mp hguarded
  -- what the rule lets a domain execute is what its declaration was accepted for
  obtain ⟨hsource, htarget⟩ := sides_eq_of_counts hneeded hcounts
  rw [hsource, htarget]
  exact (rejection?_eq_none_iff.mp haccepted).2.2

/-! ## Recorded rules -/

/-- The order and the repetition of recorded rules do not count. -/
theorem run_ofRules_congr (h : ∀ rule, rule ∈ rules ↔ rule ∈ recorded) :
    run (.ofRules rules) declared = run (.ofRules recorded) declared := by
  refine run_congr fun d _ => rejection?_congr (fun domain entryPoint => ?_) d
  rw [Bool.eq_iff_iff, ExecuteGrants.canExecute_ofRules, ExecuteGrants.canExecute_ofRules]
  simp only [h]

/-- From each supported declaration its change of domain is inferred, once and in the order of first
occurrence, with its two domains, its entry point and its condition, and with the five rules that it
needs under its condition. The order and the repetition of the recorded rules do not count, more of
them infer no less, and recording what was inferred infers nothing more from these or other
declarations. -/
theorem run_ofRules (recorded : List AllowRule) (declared : List DeclaredTransition) :
    (∃ supported,
        IsDistinctOf supported (declared.filter fun d => decide (d.IsSupported recorded))
          ∧ (run (.ofRules recorded) declared).transitions = supported.map (fun d =>
              { source := d.source, target := d.newDomain, entryPoint := d.entryPoint
                inferred := true, conditions := d.condition.toList })
          ∧ (run (.ofRules recorded) declared).rules = supported.flatMap workingRules)
      ∧ (∀ rules, (∀ rule, rule ∈ rules ↔ rule ∈ recorded) →
          run (.ofRules rules) declared = run (.ofRules recorded) declared)
      ∧ (∀ more : List AllowRule,
          (run (.ofRules recorded) declared).transitions.Sublist
              (run (more.foldl .record (.ofRules recorded)) declared).transitions
            ∧ (run (.ofRules recorded) declared).rules.Sublist
              (run (more.foldl .record (.ofRules recorded)) declared).rules)
      ∧ ∀ others,
          run (((run (.ofRules recorded) declared).rules.map (·.rule)).foldl .record
              (.ofRules recorded)) others
            = run (.ofRules recorded) others := by
  refine ⟨⟨accepted (.ofRules recorded) declared, isDistinctOf_accepted recorded declared, rfl, ?_⟩,
    fun rules h => run_ofRules_congr h, fun more => run_sublist fun d => ?_, fun others => ?_⟩
  · exact congrArg (accepted (.ofRules recorded) declared).flatMap
      (funext fun d => (workingRules_eq d).symm)
  · exact rejection?_foldl_record more
  · exact run_congr fun d _ => rejection?_congr (canExecute_foldl_rules_run _ declared) d

end Inference

end TypeEnforcement
