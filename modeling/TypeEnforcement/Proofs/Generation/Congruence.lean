import TypeEnforcement.Proofs.Generation.Labels
import TypeEnforcement.Proofs.Policy.Congruence
import TypeEnforcement.Proofs.Transition.Inference
/-!
# What a generated policy depends on

A generated policy depends on the rules and the roles of its table as sets (`RuleSet.SameContent`),
and the line of a rule only stands in comments. A fragment depends on its own rule and on the
attributes that the roles introduce, so two such tables have the same fragments, without comments,
and the same is inferred from them. Of the parts of a policy only the default of a boolean is
decided by the order of the rows: the last role counts. So roles are asked to agree on it.

## Main result

* `Generator.sameParts_generate`: tables with the same rules and roles give the same parts.
-/

namespace TypeEnforcement

open Canonical

/-! ## Tables -/

/-- A rule without the line on which it stands. -/
def Rule.withoutLine (rule : Rule) : Rule :=
  { rule with line := none }

namespace RuleSet

/-- Whether two tables have the same rules, but for the lines on which they stand, and the same
roles. -/
structure SameContent (set other : RuleSet) : Prop where
  rules : ∀ rule,
    rule ∈ set.rules.map (·.withoutLine) ↔ rule ∈ other.rules.map (·.withoutLine)
  roles : ∀ role, role ∈ set.roles ↔ role ∈ other.roles

theorem SameContent.symm {set other : RuleSet} (h : set.SameContent other) :
    other.SameContent set :=
  ⟨fun rule => (h.rules rule).symm, fun role => (h.roles role).symm⟩

theorem SameContent.exists_rule {set other : RuleSet} (h : set.SameContent other) {rule : Rule}
    (hrule : rule ∈ set.rules) : ∃ found ∈ other.rules, found.withoutLine = rule.withoutLine :=
  List.mem_map.mp ((h.rules _).mp (List.mem_map_of_mem hrule))

end RuleSet

/-- Whether no boolean has two defaults. -/
def BooleanDecl.Agree (decls : List BooleanDecl) : Prop :=
  ∀ decl ∈ decls, ∀ other ∈ decls, decl.name = other.name → decl.default = other.default

/-! ## Fragments with the same parts -/

namespace Fragment

variable {fragment other : Fragment} {parts others : List Fragment} {decls : List TypeDecl}

/-- A fragment without the comments on its types and its file contexts. -/
def withoutComments (fragment : Fragment) : Fragment :=
  { fragment with
    types := fragment.types.map (·.withoutComment)
    fileContexts := fragment.fileContexts.map (·.withoutComment) }

theorem withoutComments_concat (parts : List Fragment) :
    (concat parts).withoutComments = concat (parts.map (·.withoutComments)) := by
  simp only [concat, withoutComments, List.flatMap_map, List.map_flatMap]

/-- Whether two fragments have the same parts, as sets. -/
structure SameParts (fragment other : Fragment) : Prop where
  types : ∀ decl, decl ∈ fragment.types ↔ decl ∈ other.types
  rules : ∀ guarded, guarded ∈ fragment.rules ↔ guarded ∈ other.rules
  typeTransitions : ∀ change, change ∈ fragment.typeTransitions ↔ change ∈ other.typeTransitions
  fileContexts : ∀ entry, entry ∈ fragment.fileContexts ↔ entry ∈ other.fileContexts
  capabilities : ∀ capability, capability ∈ fragment.capabilities ↔ capability ∈ other.capabilities
  portBindings : ∀ binding, binding ∈ fragment.portBindings ↔ binding ∈ other.portBindings
  booleans : ∀ decl, decl ∈ fragment.booleans ↔ decl ∈ other.booleans
  declared : ∀ declared, declared ∈ fragment.declared ↔ declared ∈ other.declared

/-- Fragments laid end to end have the same parts as others, if they are the same as a set. -/
theorem sameParts_concat (h : ∀ part, part ∈ parts ↔ part ∈ others) :
    (concat parts).SameParts (concat others) := by
  constructor <;> intro part <;> simp only [concat, List.mem_flatMap, h]

/-! ### Declarations of types -/

theorem uniteTypes_withoutComment (decls : List TypeDecl) :
    uniteTypes (decls.map (·.withoutComment)) = (uniteTypes decls).map (·.withoutComment) := by
  simp only [uniteTypes, List.map_map, Function.comp_def, TypeDecl.name_withoutComment,
    TypeDecl.named_withoutComment, TypeDecl.union_withoutComment]

theorem mem_uniteTypes {decl : TypeDecl} :
    decl ∈ uniteTypes decls ↔
      ∃ name, (∃ found ∈ decls, found.name = name)
        ∧ TypeDecl.union name (TypeDecl.named name decls) = decl := by
  simp only [uniteTypes, List.mem_map, mem_distinct]

theorem mem_uniteTypes_congr {others : List TypeDecl} (h : ∀ decl, decl ∈ decls ↔ decl ∈ others)
    (hcomments : ∀ decl ∈ decls, decl.comment = none) (decl : TypeDecl) :
    decl ∈ uniteTypes decls ↔ decl ∈ uniteTypes others := by
  simp only [mem_uniteTypes, h, TypeDecl.union_named_congr h hcomments]

/-! ### Rules -/

theorem mem_effective_congr {rules others : List GuardedRule}
    (h : ∀ guarded, guarded ∈ rules ↔ guarded ∈ others) (guarded : GuardedRule) :
    guarded ∈ effective rules ↔ guarded ∈ effective others := by
  simp only [mem_effective, h]

theorem mem_rulesUnder_blocks {rules : List GuardedRule} {condition : Condition}
    {rule : AllowRule} :
    rule ∈ ConditionalBlock.rulesUnder condition (blocks rules) ↔
      ⟨some condition, rule⟩ ∈ rules := by
  simp only [ConditionalBlock.mem_rulesUnder, mem_blocks]
  constructor
  · intro hexists
    obtain ⟨block, ⟨hrules, -⟩, rfl, hrule⟩ := hexists
    rwa [hrules, mem_under] at hrule
  · intro hmem
    exact ⟨⟨condition, under condition rules⟩, ⟨rfl, rule, hmem⟩, rfl, mem_under.mpr hmem⟩

/-! ### Booleans -/

/-- Where no boolean has two defaults, the last one declared is any of them. -/
theorem defaultOf_eq_true_iff {decls : List BooleanDecl} {name : String}
    (h : BooleanDecl.Agree decls) : defaultOf decls name = true ↔ ⟨name, true⟩ ∈ decls := by
  unfold defaultOf
  cases hfind : decls.reverse.find? (·.name == name) with
  | none =>
    have hnone := List.find?_eq_none.mp hfind
    simp only [Option.map_none, Option.getD_none, Bool.false_eq_true, false_iff]
    exact fun hmem => hnone _ (List.mem_reverse.mpr hmem) (beq_self_eq_true name)
  | some found =>
    have hname : found.name = name := by simpa using List.find?_some hfind
    have hfound : found ∈ decls := List.mem_reverse.mp (List.mem_of_find?_eq_some hfind)
    simp only [Option.map_some, Option.getD_some]
    constructor
    · intro htrue
      rwa [← hname, ← htrue]
    · intro hmem
      exact h found hfound _ hmem hname

theorem uniteBooleans_congr {decls others : List BooleanDecl}
    {mentioned conditions : List Condition}
    (h : ∀ decl, decl ∈ decls ↔ decl ∈ others)
    (hmentioned : ∀ condition, condition ∈ mentioned ↔ condition ∈ conditions)
    (hagree : BooleanDecl.Agree decls) :
    uniteBooleans decls mentioned = uniteBooleans others conditions := by
  have hnames : ofList (decls.map (·.name) ++ mentioned.map (·.boolean))
      = ofList (others.map (·.name) ++ conditions.map (·.boolean)) :=
    ofList_congr fun name => by simp only [List.mem_append, List.mem_map, h, hmentioned]
  have hagree' : BooleanDecl.Agree others := by
    simpa only [BooleanDecl.Agree, h] using hagree
  have hdefaults : ∀ name, defaultOf decls name = defaultOf others name := by
    intro name
    rw [Bool.eq_iff_iff, defaultOf_eq_true_iff hagree, defaultOf_eq_true_iff hagree', h]
  simp only [uniteBooleans, hnames, hdefaults]

/-! ### Policies -/

theorem withoutComments_toPolicy (fragment : Fragment) (inference : Inference)
    (moduleName version : String) :
    (fragment.toPolicy inference moduleName version).withoutComments
      = fragment.withoutComments.toPolicy inference moduleName version := by
  simp only [toPolicy, Policy.withoutComments, withoutComments, uniteTypes_withoutComment]

/-- Fragments with the same parts, from which the same is inferred, give policies with the same
parts. -/
theorem SameParts.toPolicy (h : fragment.SameParts other) {inference inference' : Inference}
    (hrules : ∀ guarded, guarded ∈ inference.rules ↔ guarded ∈ inference'.rules)
    (htransitions : ∀ transition,
      transition ∈ inference.transitions ↔ transition ∈ inference'.transitions)
    (hcomments : ∀ decl ∈ fragment.types, decl.comment = none)
    (hagree : BooleanDecl.Agree fragment.booleans)
    (moduleName version : String) :
    (fragment.toPolicy inference moduleName version).SameParts
      (other.toPolicy inference' moduleName version) := by
  have heffective : ∀ guarded, guarded ∈ effective (fragment.rules ++ inference.rules) ↔
      guarded ∈ effective (other.rules ++ inference'.rules) :=
    mem_effective_congr fun guarded => by simp only [List.mem_append, h.rules, hrules]
  have hconditions : ∀ condition,
      condition ∈ conditions (effective (fragment.rules ++ inference.rules)) ↔
        condition ∈ conditions (effective (other.rules ++ inference'.rules)) :=
    fun condition => by simp only [conditions, mem_ofList, List.mem_filterMap, heffective]
  constructor
  case moduleName => rfl
  case version => rfl
  case types => exact mem_uniteTypes_congr h.types hcomments
  case allowRules =>
    intro rule
    simp only [Fragment.toPolicy, mem_unconditional, heffective]
  case typeTransitions => exact h.typeTransitions
  case fileContexts => exact h.fileContexts
  case capabilities => exact h.capabilities
  case portBindings => exact h.portBindings
  case booleans =>
    intro decl
    simp only [Fragment.toPolicy, uniteBooleans_congr h.booleans hconditions hagree]
  case conditionals =>
    intro condition rule
    simp only [Fragment.toPolicy, mem_rulesUnder_blocks, heffective]
  case domainTransitions => exact htransitions

end Fragment

/-! ## Inferences -/

namespace Generator

variable {generator : Generator} {set other : RuleSet} {fragment another : Fragment}

/-- The same is inferred from fragments with the same parts. -/
theorem inference_congr (generator : Generator) (h : fragment.SameParts another) :
    (∀ guarded, guarded ∈ (generator.inference fragment).rules ↔
        guarded ∈ (generator.inference another).rules)
      ∧ ∀ transition, transition ∈ (generator.inference fragment).transitions ↔
          transition ∈ (generator.inference another).transitions := by
  have hgrants : ∀ domain entryPoint,
      (ExecuteGrants.ofRules ((Fragment.effective fragment.rules).map (·.rule))).canExecute
          domain entryPoint
        = (ExecuteGrants.ofRules ((Fragment.effective another.rules).map (·.rule))).canExecute
          domain entryPoint := by
    intro domain entryPoint
    rw [Bool.eq_iff_iff, ExecuteGrants.canExecute_ofRules, ExecuteGrants.canExecute_ofRules]
    simp only [List.mem_map, Fragment.mem_effective_congr h.rules]
  unfold inference
  split
  · simp only [Inference.mem_rules_run, Inference.mem_transitions_run, h.declared,
      Inference.rejection?_congr hgrants, implies_true, and_self]
  · exact ⟨fun _ => Iff.rfl, fun _ => Iff.rfl⟩

/-! ## Fragments of rules and roles -/

theorem withoutComments_pathFragment (generator : Generator) (path : String) (rule : Rule) :
    (generator.pathFragment path rule.withoutLine).withoutComments
      = (generator.pathFragment path rule).withoutComments := by
  unfold pathFragment
  split <;> rfl

theorem withoutComments_objectFragment (generator : Generator) (attributes : List String)
    (rule : Rule) (objectClass : String) :
    (generator.objectFragment attributes rule.withoutLine objectClass).withoutComments
      = (generator.objectFragment attributes rule objectClass).withoutComments := by
  have href : rule.withoutLine.objectRef = rule.objectRef := rfl
  unfold objectFragment
  rw [href]
  cases rule.objectRef with
  | path path => exact withoutComments_pathFragment generator path rule
  | network | port | token => rfl

theorem withoutComments_transitionObject (generator : Generator) (rule : Rule) :
    (generator.transitionObject rule.withoutLine).withoutComments
      = (generator.transitionObject rule).withoutComments := by
  have href : rule.withoutLine.objectRef = rule.objectRef := rfl
  unfold transitionObject
  rw [href]
  cases rule.objectRef with
  | path path => exact withoutComments_pathFragment generator path rule
  | network | port | token => rfl

theorem withoutComments_accessFragment (generator : Generator) (attributes : List String)
    (rule : Rule) (meaning : ActionMeaning) :
    (generator.accessFragment attributes rule.withoutLine meaning).withoutComments
      = (generator.accessFragment attributes rule meaning).withoutComments := by
  have hobject := generator.withoutComments_objectFragment attributes rule meaning.objectClass
  have hlaid : ∀ rule, (generator.accessFragment attributes rule meaning).withoutComments =
      let object := (generator.objectFragment attributes rule meaning.objectClass).withoutComments
      { object with
        types := .of (domainOf rule.subject) [TypeName.domainAttribute] none :: object.types
        rules := [grant rule (domainOf rule.subject) (generator.targetOf rule.objectRef)
          meaning.objectClass meaning.permissions] } := fun _ => rfl
  rw [hlaid, hlaid, hobject]
  rfl

/-- The fragment of a rule depends on the line of the rule in its comments only. -/
theorem withoutComments_ruleFragment (generator : Generator) (attributes : List String)
    (rule : Rule) :
    (generator.ruleFragment attributes rule.withoutLine).withoutComments
      = (generator.ruleFragment attributes rule).withoutComments := by
  have heffect : rule.withoutLine.effect? = rule.effect? := rfl
  have hmeaning : generator.meaningOf rule.withoutLine = generator.meaningOf rule := rfl
  unfold ruleFragment
  rw [heffect, hmeaning]
  split
  · split
    · rfl
    · exact withoutComments_accessFragment ..
  · rfl

theorem withoutComments_transitionFragment (generator : Generator) (rule : Rule)
    (clause : TransitionClause) :
    (generator.transitionFragment rule.withoutLine clause).withoutComments
      = (generator.transitionFragment rule clause).withoutComments := by
  have hobject := generator.withoutComments_transitionObject rule
  obtain ⟨htypes, hrules, -, hcontexts, hcapabilities, hports, hbooleans, hdeclared⟩ :=
    Fragment.mk.inj hobject
  have htarget : generator.transitionTarget rule.withoutLine clause
      = generator.transitionTarget rule clause := rfl
  have hgrants : processGrants rule.withoutLine = processGrants rule := rfl
  have hcondition : rule.withoutLine.condition = rule.condition := rfl
  unfold transitionFragment
  split <;>
    simp only [Fragment.withoutComments, List.map_append, htypes, hrules, hcontexts, hcapabilities,
      hports, hbooleans, hdeclared, htarget, hgrants, hcondition]

/-- The fragment of a rule depends on the attributes as a set. -/
theorem ruleFragment_congr {attributes others : List String}
    (h : ∀ name, name ∈ attributes ↔ name ∈ others) (generator : Generator) (rule : Rule) :
    generator.ruleFragment attributes rule = generator.ruleFragment others rule := by
  have htoken : ∀ token objectClass,
      tokenFragment attributes token objectClass = tokenFragment others token objectClass :=
    fun token objectClass => by simp only [tokenFragment, h]
  simp only [ruleFragment, accessFragment, objectFragment, htoken]

theorem booleans_transitionFragment (generator : Generator) (rule : Rule)
    (clause : TransitionClause) : (generator.transitionFragment rule clause).booleans = [] := by
  unfold transitionFragment transitionObject
  split <;> split <;> rfl

/-! ## Fragments of tables -/

theorem mem_roleAttributes_congr (h : set.SameContent other) (name : String) :
    name ∈ roleAttributes set.roles ↔ name ∈ roleAttributes other.roles := by
  simp only [roleAttributes, List.mem_filter, List.mem_filterMap, h.roles]

/-- A fragment of a table is one of each table with the same content, but for comments. -/
theorem exists_fragment (h : set.SameContent other) {part : Fragment}
    (hpart : part ∈ generator.fragments set) :
    ∃ found ∈ generator.fragments other, found.withoutComments = part.withoutComments := by
  rcases mem_fragments.mp hpart with ⟨rule, hrule, hnone, rfl⟩ | ⟨role, hrole, rfl⟩
    | ⟨rule, hrule, clause, hclause, rfl⟩
  · obtain ⟨found, hfound, hsame⟩ := h.exists_rule hrule
    have hfoundnone : found.transition = none := (congrArg Rule.transition hsame).trans hnone
    refine ⟨_, mem_fragments.mpr (Or.inl ⟨found, hfound, hfoundnone, rfl⟩), ?_⟩
    rw [← withoutComments_ruleFragment, hsame, withoutComments_ruleFragment,
      ruleFragment_congr (mem_roleAttributes_congr h.symm)]
  · exact ⟨_, mem_fragments.mpr (Or.inr (Or.inl ⟨role, (h.roles role).mp hrole, rfl⟩)), rfl⟩
  · obtain ⟨found, hfound, hsame⟩ := h.exists_rule hrule
    have hfoundclause : found.transition = some clause :=
      (congrArg Rule.transition hsame).trans hclause
    refine ⟨_, mem_fragments.mpr (Or.inr (Or.inr ⟨found, hfound, clause, hfoundclause, rfl⟩)), ?_⟩
    rw [← withoutComments_transitionFragment, hsame, withoutComments_transitionFragment]

theorem mem_fragments_withoutComments (h : set.SameContent other) {part : Fragment}
    (hpart : part ∈ (generator.fragments set).map (·.withoutComments)) :
    part ∈ (generator.fragments other).map (·.withoutComments) := by
  obtain ⟨original, horiginal, rfl⟩ := List.mem_map.mp hpart
  exact List.mem_map.mpr (exists_fragment h horiginal)

theorem sameParts_fragment (generator : Generator) (h : set.SameContent other) :
    (generator.fragment set).withoutComments.SameParts
      (generator.fragment other).withoutComments := by
  rw [fragment_eq_concat, fragment_eq_concat, Fragment.withoutComments_concat,
    Fragment.withoutComments_concat]
  exact Fragment.sameParts_concat fun part =>
    ⟨mem_fragments_withoutComments h, mem_fragments_withoutComments h.symm⟩

/-- The booleans of a table's fragment are those of its roles. -/
theorem role_of_mem_booleans_fragment {decl : BooleanDecl}
    (hdecl : decl ∈ (generator.fragment set).booleans) :
    .boolean decl.name decl.default ∈ set.roles := by
  obtain ⟨part, hpart, hmem⟩ := List.mem_flatMap.mp hdecl
  rcases mem_fragments.mp hpart with ⟨rule, -, -, rfl⟩ | ⟨role, hrole, rfl⟩
    | ⟨rule, -, clause, -, rfl⟩
  · rw [booleans_ruleFragment] at hmem
    cases hmem
  · cases role with
    | membership member name =>
      simp only [roleFragment] at hmem
      split at hmem <;> cases hmem
    | boolean name default =>
      obtain rfl := List.mem_singleton.mp hmem
      exact hrole
  · rw [booleans_transitionFragment] at hmem
    cases hmem

/-- Tables with the same content, whose roles agree on booleans, give policies with the same parts,
but for comments. -/
theorem sameParts_generate (generator : Generator) (h : set.SameContent other)
    (hagree : BooleanDecl.Agree (generator.fragment set).booleans) :
    (generator.generate set).withoutComments.SameParts
      (generator.generate other).withoutComments := by
  have hfragment := generator.sameParts_fragment h
  obtain ⟨hrules, htransitions⟩ := generator.inference_congr hfragment
  simp only [generate, Fragment.withoutComments_toPolicy]
  exact hfragment.toPolicy hrules htransitions
    (fun _ => TypeDecl.comment_of_mem_withoutComment) hagree _ _

end Generator

end TypeEnforcement
