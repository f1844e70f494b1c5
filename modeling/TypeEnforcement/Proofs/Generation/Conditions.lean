import Mathlib.Data.List.Basic
import TypeEnforcement.Proofs.Generation.Grants
/-!
# The rules of a table without a condition

The unconditional rules of a generated policy are those that the rules of its table without a
condition make. A rule with a condition makes guarded rules and declarations under that condition
only, so it can be left out of its table (`RuleSet.unconditional`) and the list stays as it is, rule
for rule.

Inference needs an argument. It looks at all guarded rules, so a rule with a condition could let a
domain execute an entry point and thereby add to what a declaration without a condition brings. But
each declaration brings the permission that its own inference asks for
(`Generator.canExecute_of_declared`), whatever else is in the table.

## Main result

* `Generator.allowRules_generate_unconditional`: the unconditional rules of a generated policy.
-/

namespace TypeEnforcement

/-! ## Lists that are filtered -/

section Lists

variable {α β : Type}

/-- What the members of a list contribute can be filtered member by member, if each contributes all
or nothing. -/
theorem filter_flatMap_eq {p : α → Bool} {q : β → Bool} {f : α → List β}
    (h : ∀ x, ∀ y ∈ f x, q y = p x) (xs : List α) :
    (xs.flatMap f).filter q = (xs.filter p).flatMap f := by
  induction xs with
  | nil => rfl
  | cons x xs ih =>
    rw [List.flatMap_cons, List.filter_append, ih]
    cases hx : p x with
    | true =>
      have hall : (f x).filter q = f x :=
        List.filter_eq_self.mpr fun y hy => (h x y hy).trans hx
      rw [hall, List.filter_cons_of_pos hx, List.flatMap_cons]
    | false =>
      have hother : ¬ p x = true := Bool.eq_false_iff.mp hx
      have hnone : (f x).filter q = [] :=
        List.filter_eq_nil_iff.mpr fun y hy hq => hother ((h x y hy).symm.trans hq)
      rw [hnone, List.nil_append, List.filter_cons_of_neg hother]

end Lists

/-! ## Tables -/

/-- A table without the rules that have a condition. -/
def RuleSet.unconditional (set : RuleSet) : RuleSet :=
  { set with rules := set.rules.filter (·.condition.isNone) }

namespace RuleSet

theorem policyRules_unconditional (set : RuleSet) :
    set.unconditional.policyRules = set.policyRules.filter (·.condition.isNone) :=
  List.filter_comm ..

theorem transitions_unconditional (set : RuleSet) :
    set.unconditional.transitions = set.transitions.filter (·.1.condition.isNone) := by
  rw [transitions, transitions, unconditional, List.filterMap_filter, List.filter_filterMap]
  refine List.filterMap_congr fun rule _ => ?_
  cases rule.transition with
  | none => exact ite_self none
  | some clause => rfl

end RuleSet

/-! ## Guarded rules -/

/-- The unconditional rules are those of the guarded rules without a condition. -/
theorem Fragment.unconditional_effective_filter (rules : List GuardedRule) :
    unconditional (effective (rules.filter (·.condition.isNone)))
      = unconditional (effective rules) := by
  rw [effective, effective, List.filter_comm, unconditional, unconditional, List.filterMap_filter]
  refine List.filterMap_congr fun guarded _ => ?_
  cases guarded.condition <;> rfl

/-! ## Inferences -/

namespace Inference

/-- What is inferred without a condition is inferred from the declarations without a condition. -/
theorem rules_run_filter (grants : ExecuteGrants) (declared : List DeclaredTransition) :
    (run grants (declared.filter (·.condition.isNone))).rules
      = (run grants declared).rules.filter (·.condition.isNone) := by
  have haccepted : accepted grants (declared.filter (·.condition.isNone))
      = (accepted grants declared).filter (·.condition.isNone) := by
    rw [accepted, accepted, List.filter_comm, Canonical.filter_distinct]
  rw [run, run, haccepted]
  refine (filter_flatMap_eq (fun d guarded hguarded => ?_) _).symm
  obtain ⟨rule, -, heq⟩ := List.mem_map.mp hguarded
  rw [← heq]

end Inference

/-! ## Generated policies -/

namespace Generator

variable {generator : Generator} {set : RuleSet} {rule : Rule} {clause : TransitionClause}
  {guarded : GuardedRule} {declared : DeclaredTransition}

/-! ### Contributions of a rule -/

theorem condition_of_mem_ruleFragment {attributes : List String}
    (h : guarded ∈ (generator.ruleFragment attributes rule).rules) :
    guarded.condition = rule.condition := by
  rw [rules_ruleFragment] at h
  split at h
  · rw [List.mem_singleton.mp h]
    rfl
  · exact absurd h List.not_mem_nil

theorem condition_of_mem_transitionFragment
    (h : guarded ∈ (generator.transitionFragment rule clause).rules) :
    guarded.condition = rule.condition := by
  rw [rules_transitionFragment] at h
  split at h
  · simp only [processGrants, List.mem_cons, List.not_mem_nil, or_false] at h
    rcases h with rfl | rfl | rfl <;> rfl
  · exact absurd h List.not_mem_nil

theorem condition_of_mem_declared
    (h : declared ∈ (generator.transitionFragment rule clause).declared) :
    declared.condition = rule.condition := by
  rw [declared_transitionFragment] at h
  split at h
  · rw [List.mem_singleton.mp h]
    rfl
  · exact absurd h List.not_mem_nil

/-! ### Fragments of tables -/

theorem rules_fragment (generator : Generator) (set : RuleSet) :
    (generator.fragment set).rules
      = set.policyRules.flatMap (fun rule =>
            (generator.ruleFragment (roleAttributes set.roles) rule).rules)
        ++ set.transitions.flatMap fun change =>
            (generator.transitionFragment change.1 change.2).rules := by
  have hroles : set.roles.flatMap (fun role => (roleFragment role).rules) = [] :=
    List.flatMap_eq_nil_iff.mpr fun role _ => rules_roleFragment role
  have hrules : (generator.fragment set).rules
      = (generator.fragments set).flatMap (·.rules) := rfl
  rw [hrules, fragments, List.flatMap_append, List.flatMap_append, List.flatMap_map,
    List.flatMap_map, List.flatMap_map, hroles, List.append_nil]

theorem declared_fragment (generator : Generator) (set : RuleSet) :
    (generator.fragment set).declared
      = set.transitions.flatMap fun change =>
          (generator.transitionFragment change.1 change.2).declared := by
  have hrules : set.policyRules.flatMap (fun rule =>
      (generator.ruleFragment (roleAttributes set.roles) rule).declared) = [] :=
    List.flatMap_eq_nil_iff.mpr fun rule _ => generator.declared_ruleFragment _ rule
  have hroles : set.roles.flatMap (fun role => (roleFragment role).declared) = [] :=
    List.flatMap_eq_nil_iff.mpr fun role _ => declared_roleFragment role
  have hdeclared : (generator.fragment set).declared
      = (generator.fragments set).flatMap (·.declared) := rfl
  rw [hdeclared, fragments, List.flatMap_append, List.flatMap_append, List.flatMap_map,
    List.flatMap_map, List.flatMap_map, hrules, hroles, List.nil_append, List.nil_append]

/-- The guarded rules without a condition are those of the rules without a condition. -/
theorem rules_fragment_unconditional (generator : Generator) (set : RuleSet) :
    (generator.fragment set.unconditional).rules
      = (generator.fragment set).rules.filter (·.condition.isNone) := by
  have hroles : set.unconditional.roles = set.roles := rfl
  rw [rules_fragment, rules_fragment, List.filter_append, hroles,
    RuleSet.policyRules_unconditional, RuleSet.transitions_unconditional]
  congr 1
  · refine (filter_flatMap_eq (fun rule guarded hguarded => ?_) _).symm
    rw [condition_of_mem_ruleFragment hguarded]
  · refine (filter_flatMap_eq (fun change guarded hguarded => ?_) _).symm
    rw [condition_of_mem_transitionFragment hguarded]

/-- The declarations without a condition are those of the rules without a condition. -/
theorem declared_fragment_unconditional (generator : Generator) (set : RuleSet) :
    (generator.fragment set.unconditional).declared
      = (generator.fragment set).declared.filter (·.condition.isNone) := by
  rw [declared_fragment, declared_fragment, RuleSet.transitions_unconditional]
  refine (filter_flatMap_eq (fun change declared hdeclared => ?_) _).symm
  rw [condition_of_mem_declared hdeclared]

/-! ### Policies of tables -/

/-- What is inferred without a condition comes from the rules without a condition: a declaration is
accepted or rejected alike with and without the others, since it lets its own source execute its
entry point. -/
theorem rules_inference_unconditional (generator : Generator) (set : RuleSet) :
    (generator.inference (generator.fragment set.unconditional)).rules
      = (generator.inference (generator.fragment set)).rules.filter (·.condition.isNone) := by
  unfold inference
  by_cases hinfers : generator.infersTransitions = true
  · rw [if_pos hinfers, if_pos hinfers, declared_fragment_unconditional,
      ← Inference.rules_run_filter]
    refine congrArg Inference.rules (Inference.run_congr fun declared hmem => ?_)
    have hfew : declared ∈ (generator.fragment set.unconditional).declared := by
      rw [declared_fragment_unconditional]
      exact hmem
    have hall : declared ∈ (generator.fragment set).declared := (List.mem_filter.mp hmem).1
    rw [Inference.rejection?, Inference.rejection?, canExecute_of_declared hfew,
      canExecute_of_declared hall]
  · rw [if_neg hinfers, if_neg hinfers]
    rfl

/-- The unconditional rules of a generated policy are those of the rules without a condition. -/
theorem allowRules_generate_unconditional (generator : Generator) (set : RuleSet) :
    (generator.generate set.unconditional).allowRules = (generator.generate set).allowRules := by
  have hallow : ∀ set, (generator.generate set).allowRules
      = Fragment.unconditional (Fragment.effective ((generator.fragment set).rules
          ++ (generator.inference (generator.fragment set)).rules)) := fun _ => rfl
  rw [hallow, hallow, rules_fragment_unconditional, rules_inference_unconditional,
    ← List.filter_append, Fragment.unconditional_effective_filter]

end Generator

end TypeEnforcement
