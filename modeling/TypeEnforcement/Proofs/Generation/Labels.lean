import TypeEnforcement.Proofs.Generation.Fragments
import TypeEnforcement.Proofs.Policy.Redundancy
/-!
# The files that a table labels

With labels asked for, each rule on a path that allows something on files, and each change of type
on a path, brings a file context: the pattern of the path, its kind and its type
(`Generator.mem_fileContexts_generate`). The type is the target of what the rule allows, or of the
change of type, so a generated policy refers to each type that it gives to files.

## Main results

* `Generator.mem_fileContexts_generate`: the file contexts of a generated policy.
* `Generator.exists_rule_generate`, `Generator.exists_change_generate`: what a rule on an
  object allows and what a change of type changes, in the generated policy.
-/

namespace TypeEnforcement

/-! ## Rules of a policy -/

namespace Fragment

/-- The rules of the policy of a fragment are the rules with a permission, whatever their
condition. -/
theorem mem_allRules_toPolicy {fragment : Fragment} {inference : Inference}
    {moduleName version : String} {rule : AllowRule} :
    rule ∈ (fragment.toPolicy inference moduleName version).allRules ↔
      ∃ guarded ∈ effective (fragment.rules ++ inference.rules), guarded.rule = rule := by
  simp only [Policy.mem_allRules, toPolicy, mem_unconditional]
  constructor
  · intro hcases
    rcases hcases with hmem | ⟨block, hblock, hmem⟩
    · exact ⟨_, hmem, rfl⟩
    · rw [(mem_blocks.mp hblock).1, mem_under] at hmem
      exact ⟨_, hmem, rfl⟩
  · intro hexists
    obtain ⟨⟨condition, _⟩, hmem, rfl⟩ := hexists
    cases condition with
    | none => exact Or.inl hmem
    | some condition =>
      refine Or.inr ⟨⟨condition, under condition _⟩, ?_, mem_under.mpr hmem⟩
      exact mem_blocks.mpr ⟨rfl, _, hmem⟩

theorem mem_effective {rules : List GuardedRule} {guarded : GuardedRule} :
    guarded ∈ effective rules ↔ guarded ∈ rules ∧ guarded.rule.permissions ≠ [] := by
  simp only [effective, List.mem_filter, Bool.not_eq_true', List.isEmpty_eq_false_iff, ne_eq]

end Fragment

namespace Generator

variable {generator : Generator} {set : RuleSet} {rule : Rule} {clause : TransitionClause}
  {path : String}

/-! ## File contexts -/

/-- The file context of the path of a rule. -/
def labelOf (generator : Generator) (path : String) (rule : Rule) : FileContext where
  pattern := Glob.pattern path
  kind := generator.fileKinds.kindOf path
  targetType := generator.scope.pathType path
  comment := some rule.describe

/-- Whether a file context gives the files of a path their type. -/
def IsLabel (generator : Generator) (path : String) (entry : FileContext) : Prop :=
  entry.pattern = Glob.pattern path ∧ entry.kind = generator.fileKinds.kindOf path
    ∧ entry.targetType = generator.scope.pathType path

theorem isLabel_labelOf (generator : Generator) (path : String) (rule : Rule) :
    generator.IsLabel path (generator.labelOf path rule) := by
  simp only [IsLabel, labelOf, and_self]

/-- Whether a rule is one that labels its object: it allows something on objects, or changes a
type. -/
def Labels (generator : Generator) (rule : Rule) : Prop :=
  rule.effect? = some .allow
      ∧ ObjectClass.isCapability (generator.meaningOf rule).objectClass = false
    ∨ rule.transition.isSome = true

/-- A rule with an effect changes no type. -/
theorem transition_eq_none {effect : Effect} (h : rule.effect? = some effect) :
    rule.transition = none := by
  cases htransition : rule.transition with
  | none => rfl
  | some clause =>
    rw [Rule.effect?, htransition] at h
    cases h

theorem mem_fileContexts_transitionObject {entry : FileContext} :
    entry ∈ (generator.transitionObject rule).fileContexts ↔
      generator.labelsFiles = true
        ∧ ∃ path, rule.objectRef = .path path ∧ generator.labelOf path rule = entry := by
  unfold transitionObject
  cases rule.objectRef with
  | path path =>
    simp only [pathFragment, ObjectRef.path.injEq, exists_eq_left']
    by_cases hlabels : generator.labelsFiles = true
    · simp [hlabels, labelOf, eq_comm]
    · simp [hlabels]
  | network | port | token => simp

/-- The object of an allow rule has the file contexts of the target of a change of type. -/
theorem fileContexts_objectFragment (generator : Generator) (attributes : List String) (rule : Rule)
    (objectClass : String) :
    (generator.objectFragment attributes rule objectClass).fileContexts
      = (generator.transitionObject rule).fileContexts := by
  unfold objectFragment transitionObject
  cases rule.objectRef <;> rfl

theorem fileContexts_ruleFragment (generator : Generator) (attributes : List String) (rule : Rule) :
    (generator.ruleFragment attributes rule).fileContexts =
      if rule.effect? = some .allow
          ∧ ObjectClass.isCapability (generator.meaningOf rule).objectClass = false then
        (generator.transitionObject rule).fileContexts
      else [] := by
  unfold ruleFragment
  by_cases hallow : rule.effect? = some .allow
  · by_cases hcapability : ObjectClass.isCapability (generator.meaningOf rule).objectClass = true
    · rw [if_pos hallow, if_pos hcapability, if_neg (by simp [hcapability])]
      rfl
    · rw [if_pos hallow, if_neg hcapability, if_pos ⟨hallow, by simpa using hcapability⟩]
      exact fileContexts_objectFragment ..
  · rw [if_neg hallow, if_neg fun h => hallow h.1]

theorem fileContexts_transitionFragment (generator : Generator) (rule : Rule)
    (clause : TransitionClause) :
    (generator.transitionFragment rule clause).fileContexts
      = (generator.transitionObject rule).fileContexts := by
  unfold transitionFragment
  split <;> rfl

/-- The file contexts of a table are those of the paths of its rules that label their object. -/
theorem mem_fileContexts_fragment {entry : FileContext} :
    entry ∈ (generator.fragment set).fileContexts ↔
      generator.labelsFiles = true ∧ ∃ rule ∈ set.rules, generator.Labels rule
        ∧ ∃ path, rule.objectRef = .path path ∧ generator.labelOf path rule = entry := by
  refine (mem_flatMap_fragments fileContexts_roleFragment).trans ?_
  simp only [fileContexts_ruleFragment, fileContexts_transitionFragment, List.mem_ite_nil_right,
    mem_fileContexts_transitionObject]
  constructor
  · intro hcases
    rcases hcases with ⟨rule, hrule, -, hallow, hlabels, hpath⟩
      | ⟨rule, hrule, clause, hclause, hlabels, hpath⟩
    · exact ⟨hlabels, rule, hrule, Or.inl hallow, hpath⟩
    · exact ⟨hlabels, rule, hrule, Or.inr (by rw [hclause]; rfl), hpath⟩
  · intro hboth
    obtain ⟨hlabels, rule, hrule, hallow | htransition, hpath⟩ := hboth
    · exact Or.inl ⟨rule, hrule, transition_eq_none hallow.1, hallow, hlabels, hpath⟩
    · obtain ⟨clause, hclause⟩ := Option.isSome_iff_exists.mp htransition
      exact Or.inr ⟨rule, hrule, clause, hclause, hlabels, hpath⟩

/-- The file contexts of a generated policy are those of its table. -/
theorem mem_fileContexts_generate {entry : FileContext} :
    entry ∈ (generator.generate set).fileContexts ↔
      generator.labelsFiles = true ∧ ∃ rule ∈ set.rules, generator.Labels rule
        ∧ ∃ path, rule.objectRef = .path path ∧ generator.labelOf path rule = entry := by
  have hgenerate : (generator.generate set).fileContexts = (generator.fragment set).fileContexts :=
    rfl
  rw [hgenerate, mem_fileContexts_fragment]

/-! ## Targets -/

theorem targetOf_of_path (h : rule.objectRef = .path path) :
    generator.targetOf rule.objectRef = generator.scope.pathType path := by
  rw [h, targetOf]

theorem transitionTarget_of_path (h : rule.objectRef = .path path) :
    generator.transitionTarget rule clause = generator.scope.pathType path := by
  rw [transitionTarget, h]

/-- What a rule on an object allows, a generated policy allows. -/
theorem exists_rule_generate (hrule : rule ∈ set.rules) (hallow : rule.effect? = some .allow)
    (hobject : ObjectClass.isCapability (generator.meaningOf rule).objectClass = false)
    (hsome : (generator.meaningOf rule).permissions ≠ []) :
    ∃ allow ∈ (generator.generate set).allRules,
      allow.key = ⟨domainOf rule.subject, generator.targetOf rule.objectRef,
          (generator.meaningOf rule).objectClass⟩
        ∧ ∀ permission ∈ (generator.meaningOf rule).permissions,
            permission ∈ allow.permissions := by
  have hguarded : grant rule (domainOf rule.subject) (generator.targetOf rule.objectRef)
      (generator.meaningOf rule).objectClass (generator.meaningOf rule).permissions
        ∈ (generator.fragment set).rules := by
    refine mem_rules_fragment.mpr (Or.inl ⟨rule, hrule, transition_eq_none hallow, ?_⟩)
    rw [rules_ruleFragment, if_pos hallow, if_neg (by simp [hobject])]
    exact List.mem_singleton_self _
  have heffective := Fragment.mem_effective.mpr
    ⟨List.mem_append_left (generator.inference (generator.fragment set)).rules hguarded,
      Canonical.distinct_ne_nil hsome⟩
  exact ⟨_, Fragment.mem_allRules_toPolicy.mpr ⟨_, heffective, rfl⟩, rfl,
    fun permission hpermission => Canonical.mem_distinct.mpr hpermission⟩

/-- What a change of type changes, a generated policy changes. -/
theorem exists_change_generate (hrule : rule ∈ set.rules)
    (hclause : rule.transition = some clause) :
    ∃ change ∈ (generator.generate set).typeTransitions,
      change.source = domainOf clause.sourceType
        ∧ change.target = generator.transitionTarget rule clause
        ∧ change.objectClass = clause.objectClass
        ∧ change.newType = TypeName.ensureEnding clause.newType := by
  exact ⟨generator.typeChangeOf rule clause,
    mem_typeTransitions_fragment.mpr ⟨rule, hrule, clause, hclause, rfl⟩, rfl, rfl, rfl, rfl⟩

end Generator

end TypeEnforcement
