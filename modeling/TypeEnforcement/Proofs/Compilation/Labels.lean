import TypeEnforcement.Proofs.Compilation.Stages
import TypeEnforcement.Proofs.Generation.Labels
import TypeEnforcement.Proofs.Glob.Base
import TypeEnforcement.Proofs.Policy.Survival
/-!
# Labels of files

A compilation neither loses nor contradicts a label. Where several paths of a table share a pattern
and a kind, only the first of their file contexts is left; but paths with one pattern have one type
(`TypeName.Scope.pathType_eq_of_pattern_eq`), so it is a label for all of them. And a rule on a path
refers to the type of the path, so neither the type nor its file context is pruned.

## Main result

* `exists_label_of_compile`: the labels of the result of a compilation.
-/

namespace TypeEnforcement

variable {options : Options} {generator : Generator} {set : RuleSet} {rule : Rule} {path : String}

namespace Generator

/-! ## Labels that agree -/

theorem exists_isLabel {entry : FileContext}
    (hentry : entry ∈ (generator.generate set).fileContexts) :
    ∃ rule ∈ set.rules, ∃ path, rule.objectRef = .path path ∧ generator.IsLabel path entry := by
  obtain ⟨-, rule, hrule, -, path, hpath, rfl⟩ := mem_fileContexts_generate.mp hentry
  exact ⟨rule, hrule, path, hpath, generator.isLabel_labelOf path rule⟩

/-- File contexts with one pattern give one type. -/
theorem targetType_eq_of_pattern_eq (hspelled : ∀ rule ∈ set.rules, rule.IsSpelled)
    {entry other : FileContext} (hentry : entry ∈ (generator.generate set).fileContexts)
    (hother : other ∈ (generator.generate set).fileContexts) (h : entry.pattern = other.pattern) :
    entry.targetType = other.targetType := by
  obtain ⟨rule, hrule, path, hpath, hpattern, -, htarget⟩ := exists_isLabel hentry
  obtain ⟨rule', hrule', path', hpath', hpattern', -, htarget'⟩ := exists_isLabel hother
  rw [htarget, htarget']
  refine generator.scope.pathType_eq_of_pattern_eq ((hspelled rule hrule).plain path hpath)
    ((hspelled rule' hrule').plain path' hpath') ?_
  rw [← hpattern, ← hpattern', h]

/-! ## Labels that are left -/

theorem exists_isLabel_generate (hlabels : generator.labelsFiles = true) (hrule : rule ∈ set.rules)
    (h : generator.Labels rule) (hpath : rule.objectRef = .path path) :
    ∃ entry ∈ (generator.generate set).fileContexts, generator.IsLabel path entry := by
  refine ⟨generator.labelOf path rule, ?_, generator.isLabel_labelOf path rule⟩
  exact mem_fileContexts_generate.mpr ⟨hlabels, rule, hrule, h, path, hpath, rfl⟩

/-- The normal form keeps a label of each path to whose type the policy refers. -/
theorem exists_isLabel_run (hspelled : ∀ rule ∈ set.rules, rule.IsSpelled) (optimizer : Optimizer)
    {entry : FileContext} (hentry : entry ∈ (generator.generate set).fileContexts)
    (hlabel : generator.IsLabel path entry)
    (hreferred : generator.scope.pathType path ∈ (generator.generate set).references) :
    ∃ kept ∈ (optimizer.run (generator.generate set)).fileContexts,
      generator.IsLabel path kept := by
  obtain ⟨kept, hkept, hkey⟩ := FileContext.exists_context_merge hentry
  simp only [FileContext.key, FileContextKey.mk.injEq] at hkey
  have hmem : kept ∈ (generator.generate set).fileContexts :=
    List.mem_of_find?_eq_some (FileContext.mem_merge.mp hkept)
  have htarget := targetType_eq_of_pattern_eq hspelled hmem hentry hkey.1
  have hkeptlabel : generator.IsLabel path kept :=
    ⟨hkey.1.trans hlabel.1, hkey.2.trans hlabel.2.1, htarget.trans hlabel.2.2⟩
  refine ⟨kept, ?_, hkeptlabel⟩
  exact Optimizer.mem_fileContexts_run_of_references optimizer hkept
    (hkeptlabel.2.2.symm ▸ hreferred)

end Generator

/-! ## Compilations -/

namespace Options

open Generator (IsLabel)

/-- The policy of a table is the generated one or its normal form. -/
theorem policyOf_cases (options : Options) (generator : Generator) (set : RuleSet) :
    options.policyOf generator set = generator.generate set
      ∨ ∃ optimizer : Optimizer,
          options.policyOf generator set = optimizer.run (generator.generate set) := by
  unfold policyOf
  cases options.optimizer? with
  | none => exact Or.inl rfl
  | some optimizer => exact Or.inr ⟨optimizer, rfl⟩

theorem exists_isLabel_policyOf (hspelled : ∀ rule ∈ set.rules, rule.IsSpelled)
    {entry : FileContext} (hentry : entry ∈ (generator.generate set).fileContexts)
    (hlabel : generator.IsLabel path entry)
    (hreferred : generator.scope.pathType path ∈ (generator.generate set).references) :
    ∃ kept ∈ (options.policyOf generator set).fileContexts, generator.IsLabel path kept := by
  rcases options.policyOf_cases generator set with heq | ⟨optimizer, heq⟩
  · exact ⟨entry, heq ▸ hentry, hlabel⟩
  · rw [heq]
    exact Generator.exists_isLabel_run hspelled optimizer hentry hlabel hreferred

theorem exists_cover_policyOf {allow : AllowRule}
    (hallow : allow ∈ (generator.generate set).allRules) :
    ∃ kept ∈ (options.policyOf generator set).allRules, allow.isCoveredBy kept = true := by
  rcases options.policyOf_cases generator set with heq | ⟨optimizer, heq⟩
  · exact ⟨allow, heq ▸ hallow, AllowRule.isCoveredBy_refl allow⟩
  · rw [heq]
    exact (Optimizer.isCoveredBy_run optimizer _).cover allow hallow

/-- What a rule on an object allows, the policy of its table allows. -/
theorem exists_rule_policyOf (hrule : rule ∈ set.rules) (hallow : rule.effect? = some .allow)
    (hobject : ObjectClass.isCapability (generator.meaningOf rule).objectClass = false)
    (hsome : (generator.meaningOf rule).permissions ≠ []) :
    ∃ allow ∈ (options.policyOf generator set).allRules,
      allow.key = ⟨Generator.domainOf rule.subject, generator.targetOf rule.objectRef,
          (generator.meaningOf rule).objectClass⟩
        ∧ ∀ permission ∈ (generator.meaningOf rule).permissions,
            permission ∈ allow.permissions := by
  obtain ⟨allow, hmem, hkey, hpermissions⟩ :=
    Generator.exists_rule_generate hrule hallow hobject hsome
  obtain ⟨kept, hkept, hcovers⟩ := options.exists_cover_policyOf hmem
  obtain ⟨hsame, hcovered⟩ := AllowRule.isCoveredBy_iff.mp hcovers
  exact ⟨kept, hkept, hsame.symm.trans hkey, fun permission hpermission =>
    hcovered permission (hpermissions permission hpermission)⟩

theorem mem_typeTransitions_policyOf {change : TypeTransition} :
    change ∈ (options.policyOf generator set).typeTransitions ↔
      change ∈ (generator.generate set).typeTransitions := by
  rcases options.policyOf_cases generator set with heq | ⟨optimizer, heq⟩
  · rw [heq]
  · rw [heq, (Optimizer.sorted_run optimizer _).1, Canonical.mem_ofList]

theorem mem_fileContexts_of_policyOf {entry : FileContext}
    (hentry : entry ∈ (options.policyOf generator set).fileContexts) :
    entry ∈ (generator.generate set).fileContexts := by
  rcases options.policyOf_cases generator set with heq | ⟨optimizer, heq⟩
  · exact heq ▸ hentry
  · rw [heq] at hentry
    exact Optimizer.mem_fileContexts_of_run hentry

/-- A rule that allows something on a path: the path keeps a label, and its type stays the target of
a rule that allows what the rule allows. -/
theorem exists_label_of_allow (options : Options)
    (hspelled : ∀ rule ∈ set.rules, rule.IsSpelled)
    (heffective : generator.actions.IsEffective) (hlabels : generator.labelsFiles = true)
    (hrule : rule ∈ set.rules) (hpath : rule.objectRef = .path path)
    (hallow : rule.effect? = some .allow)
    (hobject : ObjectClass.isCapability (generator.meaningOf rule).objectClass = false) :
    (∃ entry ∈ (options.policyOf generator set).fileContexts, generator.IsLabel path entry)
      ∧ ∃ allow ∈ (options.policyOf generator set).allRules,
          allow.key = ⟨Generator.domainOf rule.subject, generator.scope.pathType path,
              (generator.meaningOf rule).objectClass⟩
            ∧ ∀ permission ∈ (generator.meaningOf rule).permissions,
                permission ∈ allow.permissions := by
  have hsome : (generator.meaningOf rule).permissions ≠ [] := heffective.meaning _ _
  obtain ⟨allow, hmem, hkey, -⟩ := Generator.exists_rule_generate hrule hallow hobject hsome
  have htarget : allow.target = generator.scope.pathType path := by
    rw [Generator.targetOf_of_path hpath] at hkey
    simp only [AllowRule.key, AccessKey.mk.injEq] at hkey
    exact hkey.2.1
  have hreferred : generator.scope.pathType path ∈ (generator.generate set).references :=
    Policy.mem_references.mpr (Or.inl ⟨allow, hmem, Or.inr htarget.symm⟩)
  obtain ⟨entry, hentry, hlabel⟩ :=
    Generator.exists_isLabel_generate hlabels hrule (Or.inl ⟨hallow, hobject⟩) hpath
  refine ⟨exists_isLabel_policyOf hspelled hentry hlabel hreferred, ?_⟩
  rw [← Generator.targetOf_of_path hpath]
  exact exists_rule_policyOf hrule hallow hobject hsome

/-- A rule that changes a type on a path: the path keeps a label, and its type stays the target of
the change of type. -/
theorem exists_label_of_transition (options : Options)
    (hspelled : ∀ rule ∈ set.rules, rule.IsSpelled)
    (hlabels : generator.labelsFiles = true) (hrule : rule ∈ set.rules)
    (hpath : rule.objectRef = .path path) {clause : TransitionClause}
    (hclause : rule.transition = some clause) :
    (∃ entry ∈ (options.policyOf generator set).fileContexts, generator.IsLabel path entry)
      ∧ ∃ change ∈ (options.policyOf generator set).typeTransitions,
          change.source = Generator.domainOf clause.sourceType
            ∧ change.target = generator.scope.pathType path
            ∧ change.objectClass = clause.objectClass
            ∧ change.newType = TypeName.ensureEnding clause.newType := by
  obtain ⟨change, hchange, hsource, htarget, hclass, hnew⟩ :=
    Generator.exists_change_generate hrule hclause
  rw [Generator.transitionTarget_of_path hpath] at htarget
  have hmentions : change.mentions (generator.scope.pathType path) = true :=
    Policy.mentions_iff.mpr (Or.inr (Or.inl htarget.symm))
  have hreferred : generator.scope.pathType path ∈ (generator.generate set).references :=
    Policy.mem_references.mpr (Or.inr (Or.inl ⟨change, hchange, hmentions⟩))
  obtain ⟨entry, hentry, hlabel⟩ := Generator.exists_isLabel_generate hlabels hrule
    (Or.inr (by rw [hclause]; rfl)) hpath
  exact ⟨exists_isLabel_policyOf hspelled hentry hlabel hreferred, change,
    mem_typeTransitions_policyOf.mpr hchange, hsource, htarget, hclass, hnew⟩

end Options

/-- No label of files is lost or contradicted. With labels asked for, each allow row on a path
whose class is none of capabilities, and each transition row on a path, has a file context in the
result, with the pattern and the kind of the path and with its type, which is the target of a rule
that allows what the row allows, or of the row's change of type. And file contexts with one pattern
give one type. -/
theorem exists_label_of_compile {model : Model} {rows : List Row} {result : Compiled}
    (h : compile options model rows = .ok result) (hlabels : options.labelsFiles = true) :
    ∃ generator, options.generator = .ok generator
      ∧ (∀ row ∈ rows, ∀ rule path, Statement.ofRow row = .ok (.rule rule) →
          rule.objectRef = .path path → rule.effect? = some .allow →
          ObjectClass.isCapability (generator.meaningOf rule).objectClass = false →
            (∃ entry ∈ result.policy.fileContexts, generator.IsLabel path entry)
              ∧ ∃ allow ∈ result.policy.allRules,
                  allow.key = ⟨Generator.domainOf rule.subject, generator.scope.pathType path,
                      (generator.meaningOf rule).objectClass⟩
                    ∧ ∀ permission ∈ (generator.meaningOf rule).permissions,
                        permission ∈ allow.permissions)
      ∧ (∀ row ∈ rows, ∀ rule clause path, Statement.ofRow row = .ok (.rule rule) →
          rule.objectRef = .path path → rule.transition = some clause →
            (∃ entry ∈ result.policy.fileContexts, generator.IsLabel path entry)
              ∧ ∃ change ∈ result.policy.typeTransitions,
                  change.source = Generator.domainOf rule.subject
                    ∧ change.target = generator.scope.pathType path
                    ∧ change.objectClass = rule.objectClass
                    ∧ change.newType = TypeName.ensureEnding rule.effect)
      ∧ ∀ entry ∈ result.policy.fileContexts, ∀ other ∈ result.policy.fileContexts,
          entry.pattern = other.pattern → entry.targetType = other.targetType := by
  obtain ⟨generator, set, hgenerator, hset, ⟨-, hcheck⟩, hpolicy⟩ :=
    exists_compile_iff.mp ⟨result, h, rfl⟩
  have hspelled : ∀ rule ∈ set.rules, rule.IsSpelled := RuleSet.isSpelled_of_mem hset hcheck
  have hgenerates : generator.labelsFiles = true :=
    (Options.labelsFiles_of_generator hgenerator).trans hlabels
  rw [← hpolicy]
  refine ⟨generator, hgenerator, ?allowing, ?changing, ?agreeing⟩
  case allowing =>
    intro row hrow rule path hread hpath hallow hobject
    have hrule : rule ∈ set.rules := (RuleSet.mem_rules_iff hset).mpr ⟨row, hrow, hread⟩
    exact options.exists_label_of_allow hspelled (Options.isEffective_of_generator hgenerator)
      hgenerates hrule hpath hallow hobject
  case changing =>
    intro row hrow rule clause path hread hpath hclause
    have hrule : rule ∈ set.rules := (RuleSet.mem_rules_iff hset).mpr ⟨row, hrow, hread⟩
    obtain rfl := (RuleSet.isDecoded_of_mem hset rule hrule).clause clause hclause
    -- Named first, for the goal is about the fields of the clause and not the clause.
    have hkept := options.exists_label_of_transition hspelled hgenerates hrule hpath hclause
    exact hkept
  case agreeing =>
    intro entry hentry other hother hpattern
    exact Generator.targetType_eq_of_pattern_eq hspelled
      (Options.mem_fileContexts_of_policyOf hentry) (Options.mem_fileContexts_of_policyOf hother)
      hpattern

/-- Two paths with one pattern, and the program of a domain. -/
def labelledRows : List Row := [
  ⟨"p", ["web", "/srv/www/*", "read", "allow"], some 1⟩,
  ⟨"p", ["web", "/srv/www/**", "write", "allow"], some 2⟩,
  ⟨"p2", ["init", "/usr/sbin/web_bin", "transition", "web"], some 3⟩]

theorem exists_label_of_compile_labelledRows :
    ∃ result, compile {} .standard labelledRows = .ok result
      ∧ (∃ entry ∈ result.policy.fileContexts,
          entry.pattern = Glob.pattern "/srv/www/**" ∧ entry.targetType = "local_srv_www_t")
      ∧ (∃ change ∈ result.policy.typeTransitions, change.target = "local_usr_sbin_web_bin_t")
      ∧ ∀ entry ∈ result.policy.fileContexts, ∀ other ∈ result.policy.fileContexts,
          entry.pattern = other.pattern → entry.targetType = other.targetType := by
  have hok : (compile {} .standard labelledRows).isOk = true := by decide +kernel
  obtain ⟨result, hresult⟩ := exists_of_isOk hok
  obtain ⟨generator, hgenerator, hallowing, hchanging, hagreeing⟩ :=
    exists_label_of_compile hresult rfl
  cases hgenerator
  have hallow : Statement.ofRow ⟨"p", ["web", "/srv/www/**", "write", "allow"], some 2⟩
      = .ok (.rule (.ofPolicyFields "web" "/srv/www/**" "write" "" "allow" "" (some 2))) := by
    decide +kernel
  have hchange : ∃ rule clause, Statement.ofRow
      ⟨"p2", ["init", "/usr/sbin/web_bin", "transition", "web"], some 3⟩ = .ok (.rule rule)
        ∧ rule.objectRef = .path "/usr/sbin/web_bin" ∧ rule.transition = some clause :=
    ⟨_, _, rfl, by decide +kernel, rfl⟩
  obtain ⟨⟨entry, hentry, hpattern, -, htarget⟩, -⟩ :=
    hallowing _ (by simp [labelledRows]) _ "/srv/www/**" hallow (by decide +kernel)
      (by decide +kernel) (by decide +kernel)
  obtain ⟨rule, clause, hread, hpath, hclause⟩ := hchange
  obtain ⟨-, change, hmem, -, hchangetarget, -⟩ :=
    hchanging _ (by simp [labelledRows]) rule clause _ hread hpath hclause
  exact ⟨result, hresult, ⟨entry, hentry, hpattern, htarget.trans (by decide +kernel)⟩,
    ⟨change, hmem, hchangetarget.trans (by decide +kernel)⟩, hagreeing⟩

end TypeEnforcement
