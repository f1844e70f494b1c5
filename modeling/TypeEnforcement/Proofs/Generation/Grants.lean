import TypeEnforcement.Proofs.Generation.Fragments
import TypeEnforcement.Proofs.Transition.Inference
/-!
# What a generated policy grants

A generated policy grants exactly what the rules of its table say. `Generator.ruleAccesses` is what
one rule says: a rule that allows gives its subject the permissions of its action on its object; a
change of the domain of a process gives what it takes to execute the entry point, to make the change
and to enter the new domain, and more if domain transitions are inferred.

An inference looks at all rules generated so far, so the grants of one rule could depend on the
others. They do not: a change of domain brings the permission to execute that the inference asks for
(`Generator.canExecute_of_declared`).

## Main result

* `Generator.mem_grants_generate_iff`: for all values of the booleans, the accesses that a generated
  policy grants are those of the rules of its table that are in force.
-/

namespace TypeEnforcement

/-! ## What a rule says -/

/-- Whether a rule is in force for given values of the booleans. -/
def Rule.isActive (values : String → Bool) (rule : Rule) : Bool :=
  rule.condition.all (·.holds values)

namespace Generator

/-- The accesses of a rule that allows: those that its action stands for, on its object or, where
they are capabilities, on the subject itself. -/
def allowedAccesses (generator : Generator) (rule : Rule) : List Access :=
  let meaning := generator.actions.meaning rule.action (some rule.objectClass)
  let target :=
    if ObjectClass.isCapability meaning.objectClass then "self"
    else match rule.objectRef with
      | .path path => generator.scope.pathType path
      | .network _ port => generator.scope.portType port
      | .port port => generator.scope.portType port
      | .token token => token
  let subject := TypeName.ensureEnding rule.subject
  meaning.permissions.map (Access.mk subject target meaning.objectClass)

/-- The accesses of a change of domain as it is declared. -/
def declaredAccesses (source entryPoint newDomain : String) : List Access := [
  ⟨source, entryPoint, "file", "execute"⟩,
  ⟨source, newDomain, "process", "transition"⟩,
  ⟨newDomain, entryPoint, "file", "entrypoint"⟩]

/-- The accesses that are inferred from a change of domain. -/
def inferredAccesses (source entryPoint newDomain : String) : List Access :=
  ["execute", "read", "getattr", "open"].map (Access.mk source entryPoint "file")
    ++ ["sigchld"].map (Access.mk newDomain source "process")
    ++ ["fork", "sigchld", "signal"].map (Access.mk newDomain "self" "process")

/-- The entry point of a change of domain: the type of a path, or else the target by name. -/
def entryPointOf (generator : Generator) (rule : Rule) (clause : TransitionClause) : String :=
  match rule.objectRef with
  | .path path => generator.scope.pathType path
  | _ => TypeName.ensureEnding clause.targetType

/-- The accesses of a rule that changes a type: none, unless it is one of processes. -/
def transitionAccesses (generator : Generator) (rule : Rule) (clause : TransitionClause) :
    List Access :=
  let source := TypeName.ensureEnding clause.sourceType
  let newDomain := TypeName.ensureEnding clause.newType
  let entryPoint := generator.entryPointOf rule clause
  if clause.objectClass = "process" then
    declaredAccesses source entryPoint newDomain
      ++ if generator.infersTransitions = true ∧ TypeName.isProgram entryPoint = true
            ∧ source ≠ newDomain then
          inferredAccesses source entryPoint newDomain
        else []
  else []

/-- The accesses of a rule. -/
def ruleAccesses (generator : Generator) (rule : Rule) : List Access :=
  match rule.transition with
  | some clause => generator.transitionAccesses rule clause
  | none => if rule.effect = "allow" then generator.allowedAccesses rule else []

end Generator

namespace Generator

open GuardedRule (Grant)

variable {generator : Generator} {set : RuleSet} {rule : Rule} {clause : TransitionClause}
  {values : String → Bool} {access : Access}

/-! ## Rules that allow -/

theorem effect?_eq_allow_iff (hnone : rule.transition = none) :
    rule.effect? = some .allow ↔ rule.effect = "allow" := by
  have hword : Effect.ofWord? rule.effect = some .allow ↔ rule.effect = "allow" := by
    constructor
    · intro h
      have hfound := List.find?_some h
      exact (beq_iff_eq.mp hfound).symm
    · intro h
      rw [h]
      rfl
  rw [Rule.effect?, hnone]
  exact hword

theorem grant_cons {source target objectClass : String} {permissions : List String}
    {rest : List GuardedRule} :
    Grant values (grant rule source target objectClass permissions :: rest) access ↔
      (rule.isActive values = true
          ∧ access ∈ permissions.map (Access.mk source target objectClass))
        ∨ Grant values rest access := by
  simp only [Grant, List.mem_cons, exists_eq_or_imp]
  exact or_congr (and_congr Iff.rfl AllowRule.accesses_of_iff) Iff.rfl

theorem not_grant_nil : ¬ Grant values [] access := by
  simp [Grant]

theorem allowedAccesses_eq (generator : Generator) (rule : Rule) :
    generator.allowedAccesses rule =
      (generator.meaningOf rule).permissions.map (Access.mk (domainOf rule.subject)
        (if ObjectClass.isCapability (generator.meaningOf rule).objectClass then
          AllowRule.selfTarget
        else generator.targetOf rule.objectRef)
        (generator.meaningOf rule).objectClass) := by
  unfold allowedAccesses
  cases rule.objectRef <;> rfl

/-- The fragment of a rule that changes no type gives what the rule says. -/
theorem grant_ruleFragment (hnone : rule.transition = none) (attributes : List String) :
    Grant values (generator.ruleFragment attributes rule).rules access ↔
      rule.isActive values = true ∧ access ∈ generator.ruleAccesses rule := by
  rw [rules_ruleFragment, ruleAccesses, hnone]
  by_cases hallow : rule.effect = "allow"
  · rw [if_pos ((effect?_eq_allow_iff hnone).mpr hallow), grant_cons, ← allowedAccesses_eq]
    simp only [if_pos hallow, not_grant_nil, or_false]
  · rw [if_neg (mt (effect?_eq_allow_iff hnone).mp hallow)]
    simp only [if_neg hallow, not_grant_nil, List.not_mem_nil, and_false]

/-! ## Changes of domain -/

theorem mem_declaredAccesses {source entryPoint newDomain : String} :
    access ∈ declaredAccesses source entryPoint newDomain ↔
      access ∈ ["execute"].map (Access.mk source entryPoint "file")
        ∨ access ∈ ["transition"].map (Access.mk source newDomain "process")
        ∨ access ∈ ["entrypoint"].map (Access.mk newDomain entryPoint "file") := by
  simp [declaredAccesses]

/-- The fragment of a change of type gives what it takes to change the domain of a process. -/
theorem grant_transitionFragment :
    Grant values (generator.transitionFragment rule clause).rules access ↔
      rule.isActive values = true ∧ clause.isProcess = true
        ∧ access ∈ declaredAccesses (TypeName.ensureEnding clause.sourceType)
            (generator.transitionTarget rule clause) (TypeName.ensureEnding clause.newType) := by
  rw [rules_transitionFragment, mem_declaredAccesses]
  by_cases hprocess : clause.isProcess = true
  · rw [if_pos hprocess, processGrants, grant_cons, grant_cons, grant_cons]
    constructor
    · intro hcases
      rcases hcases with ⟨hactive, hexecute⟩ | ⟨hactive, hchange⟩ | ⟨hactive, henter⟩ | hnil
      · exact ⟨hactive, hprocess, Or.inl hexecute⟩
      · exact ⟨hactive, hprocess, Or.inr (Or.inl hchange)⟩
      · exact ⟨hactive, hprocess, Or.inr (Or.inr henter)⟩
      · exact absurd hnil not_grant_nil
    · intro hboth
      rcases hboth with ⟨hactive, -, hexecute | hchange | henter⟩
      · exact Or.inl ⟨hactive, hexecute⟩
      · exact Or.inr (Or.inl ⟨hactive, hchange⟩)
      · exact Or.inr (Or.inr (Or.inl ⟨hactive, henter⟩))
  · rw [if_neg hprocess]
    constructor
    · exact fun hnil => absurd hnil not_grant_nil
    · exact fun h => absurd h.2.1 hprocess

/-- A change of domain brings the permission to execute that an inference from it asks for. -/
theorem canExecute_of_declared {declared : DeclaredTransition}
    (hdeclared : declared ∈ (generator.fragment set).declared) :
    (ExecuteGrants.ofRules ((Fragment.effective (generator.fragment set).rules).map
      (·.rule))).canExecute declared.source declared.entryPoint = true := by
  obtain ⟨rule, hrule, clause, hclause, hprocess, rfl⟩ := mem_declared_fragment.mp hdeclared
  rw [ExecuteGrants.canExecute_ofRules]
  let execute := grant rule (TypeName.ensureEnding clause.sourceType)
    (generator.transitionTarget rule clause) ObjectClass.file [executePermission]
  have hmem : execute ∈ (generator.fragment set).rules := by
    refine mem_rules_fragment.mpr (Or.inr ⟨rule, hrule, clause, hclause, ?_⟩)
    rw [rules_transitionFragment, if_pos hprocess]
    exact List.mem_cons_self
  have heffective : execute ∈ Fragment.effective (generator.fragment set).rules :=
    List.mem_filter.mpr ⟨hmem, rfl⟩
  refine ⟨execute.rule, List.mem_map_of_mem heffective, ?_, rfl, rfl⟩
  exact ExecuteGrants.counts_iff.mpr ⟨rfl, List.mem_cons_self⟩

/-- An inference gives the accesses of the rules for the changes of domain in force between
different domains by way of a program. -/
theorem grant_inference :
    Grant values (generator.inference (generator.fragment set)).rules access ↔
      ∃ rule ∈ set.rules, ∃ clause, rule.transition = some clause
        ∧ rule.isActive values = true ∧ clause.isProcess = true
        ∧ generator.infersTransitions = true
        ∧ TypeName.isProgram (generator.changeOf rule clause).entryPoint = true
        ∧ (generator.changeOf rule clause).source ≠ (generator.changeOf rule clause).newDomain
        ∧ ∃ allow ∈ Inference.rulesFor (generator.changeOf rule clause),
            access ∈ allow.accesses := by
  unfold inference
  by_cases hinfers : generator.infersTransitions = true
  · simp only [if_pos hinfers, Grant, Inference.mem_rules_run, Inference.rejection?_eq_none_iff]
    constructor
    · intro hexists
      obtain ⟨⟨condition, allow⟩, ⟨declared, hdeclared, ⟨hdiffer, hprogram, -⟩, hcondition,
          hallow⟩, hactive, haccess⟩ := hexists
      obtain ⟨rule, hrule, clause, hclause, hprocess, rfl⟩ := mem_declared_fragment.mp hdeclared
      obtain rfl : condition = rule.condition := hcondition
      exact ⟨rule, hrule, clause, hclause, hactive, hprocess, hinfers, hprogram, hdiffer, allow,
        hallow, haccess⟩
    · intro hexists
      obtain ⟨rule, hrule, clause, hclause, hactive, hprocess, -, hprogram, hdiffer, allow,
          hallow, haccess⟩ := hexists
      have hdeclared : generator.changeOf rule clause ∈ (generator.fragment set).declared :=
        mem_declared_fragment.mpr ⟨rule, hrule, clause, hclause, hprocess, rfl⟩
      exact ⟨⟨rule.condition, allow⟩, ⟨generator.changeOf rule clause, hdeclared,
        ⟨hdiffer, hprogram, canExecute_of_declared hdeclared⟩, rfl, hallow⟩, hactive, haccess⟩
  · simp [hinfers, Inference.empty, Grant]

/-- The rules for a change of domain repeat what the declaration gives, but for those that are
inferred. -/
theorem exists_rulesFor_iff {declared : DeclaredTransition} :
    (∃ allow ∈ Inference.rulesFor declared, access ∈ allow.accesses) ↔
      access ∈ inferredAccesses declared.source declared.entryPoint declared.newDomain
        ∨ access ∈ ["transition"].map (Access.mk declared.source declared.newDomain "process")
        ∨ access ∈ ["entrypoint"].map
            (Access.mk declared.newDomain declared.entryPoint "file") := by
  simp only [Inference.rulesFor, List.mem_cons, List.not_mem_nil, or_false, exists_eq_or_imp,
    exists_eq_left, AllowRule.accesses_of_iff, inferredAccesses, List.mem_append]
  constructor
  · intro hcases
    rcases hcases with hexecute | henter | hchange | hsignal | hself
    · exact Or.inl (Or.inl (Or.inl hexecute))
    · exact Or.inr (Or.inr henter)
    · exact Or.inr (Or.inl hchange)
    · exact Or.inl (Or.inl (Or.inr hsignal))
    · exact Or.inl (Or.inr hself)
  · intro hcases
    rcases hcases with ((hexecute | hsignal) | hself) | hchange | henter
    · exact Or.inl hexecute
    · exact Or.inr (Or.inr (Or.inr (Or.inl hsignal)))
    · exact Or.inr (Or.inr (Or.inr (Or.inr hself)))
    · exact Or.inr (Or.inr (Or.inl hchange))
    · exact Or.inr (Or.inl henter)

/-! ## Tables -/

theorem transitionAccesses_eq (generator : Generator) (rule : Rule) (clause : TransitionClause) :
    generator.transitionAccesses rule clause =
      let change := generator.changeOf rule clause
      if clause.objectClass = "process" then
        declaredAccesses change.source change.entryPoint change.newDomain
          ++ if generator.infersTransitions = true ∧ TypeName.isProgram change.entryPoint = true
                ∧ change.source ≠ change.newDomain then
              inferredAccesses change.source change.entryPoint change.newDomain
            else []
      else [] := by
  have hentry : generator.transitionTarget rule clause = generator.entryPointOf rule clause := by
    unfold transitionTarget entryPointOf
    cases rule.objectRef <;> rfl
  rw [transitionAccesses, changeOf, hentry]

/-- What a change of type says, in terms of the change of domain that it declares. -/
theorem mem_ruleAccesses_of_transition (hclause : rule.transition = some clause) :
    access ∈ generator.ruleAccesses rule ↔
      clause.isProcess = true
        ∧ (access ∈ declaredAccesses (generator.changeOf rule clause).source
              (generator.changeOf rule clause).entryPoint
              (generator.changeOf rule clause).newDomain
          ∨ (generator.infersTransitions = true
              ∧ TypeName.isProgram (generator.changeOf rule clause).entryPoint = true
              ∧ (generator.changeOf rule clause).source
                ≠ (generator.changeOf rule clause).newDomain)
            ∧ access ∈ inferredAccesses (generator.changeOf rule clause).source
                (generator.changeOf rule clause).entryPoint
                (generator.changeOf rule clause).newDomain) := by
  have hprocess : clause.isProcess = true ↔ clause.objectClass = "process" := beq_iff_eq
  have haccesses : generator.ruleAccesses rule = generator.transitionAccesses rule clause := by
    rw [ruleAccesses, hclause]
  rw [haccesses, transitionAccesses_eq, hprocess]
  by_cases hclass : clause.objectClass = "process"
  · rw [if_pos hclass, List.mem_append, and_iff_right hclass]
    refine or_congr Iff.rfl ?_
    split
    · next hinfers => exact (and_iff_right hinfers).symm
    · next hinfers => simp only [List.not_mem_nil, hinfers, false_and]
  · rw [if_neg hclass]
    simp only [List.not_mem_nil, hclass, false_and]

/-- For all values of the booleans, the accesses that a generated policy grants are those of the
rules of its table that are in force. -/
theorem mem_grants_generate_iff (generator : Generator) (set : RuleSet) (values : String → Bool)
    (access : Access) :
    access ∈ (generator.generate set).grants values ↔
      ∃ rule ∈ set.rules, rule.isActive values = true
        ∧ access ∈ generator.ruleAccesses rule := by
  have hgrants : access ∈ (generator.generate set).grants values ↔
      Grant values (generator.fragment set).rules access
        ∨ Grant values (generator.inference (generator.fragment set)).rules access :=
    Fragment.mem_grants_toPolicy.trans GuardedRule.grant_append
  rw [hgrants, grant_inference]
  constructor
  · intro hcases
    rcases hcases with ⟨guarded, hguarded, hactive, haccess⟩ | ⟨rule, hrule, clause, hclause,
        hactive, hprocess, hinfers, hprogram, hdiffer, hallow⟩
    · rcases mem_rules_fragment.mp hguarded with ⟨rule, hrule, hnone, hmem⟩
        | ⟨rule, hrule, clause, hclause, hmem⟩
      · obtain ⟨hactive', haccess⟩ :=
          (grant_ruleFragment hnone _).mp ⟨guarded, hmem, hactive, haccess⟩
        exact ⟨rule, hrule, hactive', haccess⟩
      · obtain ⟨hactive', hprocess, hdeclared⟩ :=
          grant_transitionFragment.mp ⟨guarded, hmem, hactive, haccess⟩
        exact ⟨rule, hrule, hactive',
          (mem_ruleAccesses_of_transition hclause).mpr ⟨hprocess, Or.inl hdeclared⟩⟩
    · refine ⟨rule, hrule, hactive,
        (mem_ruleAccesses_of_transition hclause).mpr ⟨hprocess, ?_⟩⟩
      rcases exists_rulesFor_iff.mp hallow with hinferred | hrepeated
      · exact Or.inr ⟨⟨hinfers, hprogram, hdiffer⟩, hinferred⟩
      · exact Or.inl (mem_declaredAccesses.mpr (Or.inr hrepeated))
  · intro hexists
    obtain ⟨rule, hrule, hactive, haccess⟩ := hexists
    cases hclause : rule.transition with
    | none =>
      obtain ⟨guarded, hmem, hactive', haccess⟩ :=
        (grant_ruleFragment hclause (roleAttributes set.roles)).mpr ⟨hactive, haccess⟩
      exact Or.inl ⟨guarded, mem_rules_fragment.mpr (Or.inl ⟨rule, hrule, hclause, hmem⟩),
        hactive', haccess⟩
    | some clause =>
      obtain ⟨hprocess, hdeclared | ⟨⟨hinfers, hprogram, hdiffer⟩, hinferred⟩⟩ :=
        (mem_ruleAccesses_of_transition hclause).mp haccess
      · obtain ⟨guarded, hmem, hactive', haccess⟩ :=
          grant_transitionFragment.mpr ⟨hactive, hprocess, hdeclared⟩
        exact Or.inl ⟨guarded,
          mem_rules_fragment.mpr (Or.inr ⟨rule, hrule, clause, hclause, hmem⟩), hactive', haccess⟩
      · exact Or.inr ⟨rule, hrule, clause, hclause, hactive, hprocess, hinfers, hprogram, hdiffer,
          exists_rulesFor_iff.mpr (Or.inl hinferred)⟩

end Generator

end TypeEnforcement
