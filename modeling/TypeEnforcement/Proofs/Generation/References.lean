import TypeEnforcement.Proofs.Generation.Labels
import TypeEnforcement.Proofs.Glob.Base
import TypeEnforcement.Proofs.Policy.References
import TypeEnforcement.Proofs.Rule.Reading
import TypeEnforcement.Proofs.Transition.Inference
/-!
# A generated policy has no dangling references

Each rule and each role of a table declares what it mentions: its fragment is closed
(`Fragment.IsClosed`). Fragments that are laid end to end stay closed, for declarations are only
added, and what is inferred from a closed fragment mentions no other types. So the policy of a
closed fragment is closed, and each of its capabilities and domain transitions is anchored.

## Main results

* `Fragment.isClosed_concat`: closed fragments stay closed when they are laid end to end.
* `Generator.isClosed_fragment`: the fragment of a table is closed.
* `Generator.isClosed_generate`: a generated policy is closed and anchored.
-/

namespace TypeEnforcement

open Canonical

variable {attributes : List String}

/-! ## Closed fragments -/

namespace Fragment

variable {fragment : Fragment} {parts : List Fragment} {name : String}

/-- The names of the types that a fragment declares. -/
def names (fragment : Fragment) : List String :=
  fragment.types.map (·.name)

/-- All that a fragment mentions is declared in it, where some attributes are known; and its
capabilities and the changes of domain that it declares come with rules and changes of type. -/
structure IsClosed (attributes : List String) (fragment : Fragment) : Prop where
  rules : ∀ guarded ∈ fragment.rules,
    guarded.rule.permissions.Nodup ∧ guarded.rule.source ∈ fragment.names
      ∧ IsTarget attributes fragment.names guarded.rule.target
  changes : ∀ change ∈ fragment.typeTransitions,
    change.source ∈ fragment.names ∧ change.newType ∈ fragment.names
      ∧ (change.objectClass = ObjectClass.process → change.target ∈ fragment.names)
  contexts : ∀ entry ∈ fragment.fileContexts,
    Text.startsWith entry.pattern "/" = true ∧ entry.targetType ∈ fragment.names
  ports : ∀ binding ∈ fragment.portBindings, ∃ decl ∈ fragment.types,
    decl.name = binding.typeName ∧ TypeName.portAttribute ∈ decl.attributes
  capabilities : ∀ capability ∈ fragment.capabilities, ∃ guarded ∈ fragment.rules,
    guarded.rule.permissions ≠ [] ∧ guarded.rule.source = capability.domain
  declared : ∀ declared ∈ fragment.declared, ∃ change ∈ fragment.typeTransitions,
    change.objectClass = ObjectClass.process ∧ change.source = declared.source
      ∧ change.target = declared.entryPoint ∧ change.newType = declared.newDomain

theorem isClosed_empty : IsClosed attributes {} where
  rules := by simp
  changes := by simp
  contexts := by simp
  ports := by simp
  capabilities := by simp
  declared := by simp

theorem mem_names_concat {part : Fragment} (hpart : part ∈ parts) (h : name ∈ part.names) :
    name ∈ (concat parts).names := by
  obtain ⟨decl, hdecl, rfl⟩ := List.mem_map.mp h
  exact List.mem_map_of_mem (List.mem_flatMap.mpr ⟨part, hpart, hdecl⟩)

/-- Closed fragments stay closed when they are laid end to end. -/
theorem isClosed_concat (h : ∀ part ∈ parts, part.IsClosed attributes) :
    (concat parts).IsClosed attributes where
  rules := by
    intro guarded hguarded
    obtain ⟨part, hpart, hmem⟩ := List.mem_flatMap.mp hguarded
    obtain ⟨hnodup, hsource, htarget⟩ := (h part hpart).rules guarded hmem
    exact ⟨hnodup, mem_names_concat hpart hsource, htarget.mono (mem_names_concat hpart)⟩
  changes := by
    intro change hchange
    obtain ⟨part, hpart, hmem⟩ := List.mem_flatMap.mp hchange
    obtain ⟨hsource, hnew, htarget⟩ := (h part hpart).changes change hmem
    exact ⟨mem_names_concat hpart hsource, mem_names_concat hpart hnew,
      fun hprocess => mem_names_concat hpart (htarget hprocess)⟩
  contexts := by
    intro entry hentry
    obtain ⟨part, hpart, hmem⟩ := List.mem_flatMap.mp hentry
    obtain ⟨hstarts, htarget⟩ := (h part hpart).contexts entry hmem
    exact ⟨hstarts, mem_names_concat hpart htarget⟩
  ports := by
    intro binding hbinding
    obtain ⟨part, hpart, hmem⟩ := List.mem_flatMap.mp hbinding
    obtain ⟨decl, hdecl, hport⟩ := (h part hpart).ports binding hmem
    exact ⟨decl, List.mem_flatMap.mpr ⟨part, hpart, hdecl⟩, hport⟩
  capabilities := by
    intro capability hcapability
    obtain ⟨part, hpart, hmem⟩ := List.mem_flatMap.mp hcapability
    obtain ⟨guarded, hguarded, hrule⟩ := (h part hpart).capabilities capability hmem
    exact ⟨guarded, List.mem_flatMap.mpr ⟨part, hpart, hguarded⟩, hrule⟩
  declared := by
    intro declared hdeclared
    obtain ⟨part, hpart, hmem⟩ := List.mem_flatMap.mp hdeclared
    obtain ⟨change, hchange, hsame⟩ := (h part hpart).declared declared hmem
    exact ⟨change, List.mem_flatMap.mpr ⟨part, hpart, hchange⟩, hsame⟩

theorem IsClosed.names_of_declared (h : fragment.IsClosed attributes)
    {declared : DeclaredTransition} (hdeclared : declared ∈ fragment.declared) :
    declared.source ∈ fragment.names ∧ declared.entryPoint ∈ fragment.names
      ∧ declared.newDomain ∈ fragment.names := by
  obtain ⟨change, hchange, hprocess, hsource, hentry, hnew⟩ := h.declared declared hdeclared
  obtain ⟨hsource', hnew', hentry'⟩ := h.changes change hchange
  rw [← hsource, ← hentry, ← hnew]
  exact ⟨hsource', hentry' hprocess, hnew'⟩

/-! ## Policies of closed fragments -/

theorem names_uniteTypes (decls : List TypeDecl) :
    (uniteTypes decls).map (·.name) = distinct (decls.map (·.name)) := by
  rw [uniteTypes, List.map_map]
  exact List.map_id _

theorem exists_decl_uniteTypes {decls : List TypeDecl} {decl : TypeDecl} (hdecl : decl ∈ decls) :
    ∃ united ∈ uniteTypes decls, united.name = decl.name
      ∧ ∀ label ∈ decl.attributes, label ∈ united.attributes := by
  refine ⟨TypeDecl.union decl.name (TypeDecl.named decl.name decls), ?_, rfl,
    fun label => TypeDecl.mem_attributes_union hdecl⟩
  exact List.mem_map_of_mem (mem_distinct.mpr (List.mem_map_of_mem hdecl))

/-- Each boolean that is declared or mentioned has one declaration. -/
theorem exists_filter_uniteBooleans {decls : List BooleanDecl} {mentioned : List Condition}
    {condition : Condition} (h : condition ∈ mentioned) :
    ∃ decl, (uniteBooleans decls mentioned).filter (·.name == condition.boolean) = [decl] := by
  have hkeys : (uniteBooleans decls mentioned).map (·.name)
      = ofList (decls.map (·.name) ++ mentioned.map (·.boolean)) := by
    rw [uniteBooleans, List.map_map]
    exact List.map_id _
  have hnodup : ((uniteBooleans decls mentioned).map (·.name)).Nodup :=
    hkeys ▸ (strictlyIncreasing_ofList _).nodup
  have hname : condition.boolean ∈ (uniteBooleans decls mentioned).map (·.name) := by
    rw [hkeys, mem_ofList]
    exact List.mem_append_right _ (List.mem_map_of_mem h)
  obtain ⟨decl, hdecl, hsame⟩ := List.mem_map.mp hname
  exact ⟨decl, hsame ▸ filter_key_eq_singleton hnodup hdecl⟩

/-- What is inferred from a fragment comes from changes of domain that it declares, each with the
rules that it needs. -/
structure Infers (fragment : Fragment) (inference : Inference) : Prop where
  rules : ∀ guarded ∈ inference.rules, ∃ declared ∈ fragment.declared,
    guarded.rule ∈ Inference.rulesFor declared
  transitions : ∀ transition ∈ inference.transitions, ∃ declared ∈ fragment.declared,
    Inference.transitionOf declared = transition
      ∧ ∀ rule ∈ Inference.rulesFor declared, ⟨declared.condition, rule⟩ ∈ inference.rules

variable {inference : Inference} {moduleName version : String}

theorem mem_typeNames_toPolicy :
    name ∈ (fragment.toPolicy inference moduleName version).typeNames ↔ name ∈ fragment.names := by
  rw [Policy.typeNames, mem_ofList, toPolicy, names_uniteTypes, mem_distinct, names]

/-- What is inferred mentions the types of the change of domain only, and the source itself. -/
theorem isTarget_of_mem_rulesFor (h : fragment.IsClosed attributes) {declared : DeclaredTransition}
    (hdeclared : declared ∈ fragment.declared) {rule : AllowRule}
    (hrule : rule ∈ Inference.rulesFor declared) :
    rule.permissions.Nodup ∧ rule.source ∈ fragment.names
      ∧ IsTarget attributes fragment.names rule.target := by
  obtain ⟨hsource, hentry, hnew⟩ := h.names_of_declared hdeclared
  simp only [Inference.rulesFor, List.mem_cons, List.not_mem_nil, or_false] at hrule
  rcases hrule with rfl | rfl | rfl | rfl | rfl
  · exact ⟨nodup_distinct _, hsource, Or.inl hentry⟩
  · exact ⟨nodup_distinct _, hnew, Or.inl hentry⟩
  · exact ⟨nodup_distinct _, hsource, Or.inl hnew⟩
  · exact ⟨nodup_distinct _, hnew, Or.inl hsource⟩
  · exact ⟨nodup_distinct _, hnew, Or.inr (Or.inl rfl)⟩

/-- The policy of a closed fragment is closed. -/
theorem IsClosed.toPolicy (h : fragment.IsClosed attributes) (hinfers : fragment.Infers inference)
    (moduleName version : String) :
    (fragment.toPolicy inference moduleName version).IsClosed attributes where
  names := by
    rw [Fragment.toPolicy, names_uniteTypes]
    exact nodup_distinct _
  rules := by
    intro rule hrule
    obtain ⟨guarded, heffective, rfl⟩ := mem_allRules_toPolicy.mp hrule
    obtain ⟨hmem, hsome⟩ := mem_effective.mp heffective
    have hclosed : guarded.rule.permissions.Nodup ∧ guarded.rule.source ∈ fragment.names
        ∧ IsTarget attributes fragment.names guarded.rule.target := by
      rcases List.mem_append.mp hmem with hmem | hmem
      · exact h.rules guarded hmem
      · obtain ⟨declared, hdeclared, hrulesFor⟩ := hinfers.rules guarded hmem
        exact isTarget_of_mem_rulesFor h hdeclared hrulesFor
    obtain ⟨hnodup, hsource, htarget⟩ := hclosed
    exact ⟨hsome, hnodup, mem_typeNames_toPolicy.mpr hsource,
      htarget.mono mem_typeNames_toPolicy.mpr⟩
  changes := by
    intro change hchange
    obtain ⟨hsource, hnew, htarget⟩ := h.changes change hchange
    exact ⟨mem_typeNames_toPolicy.mpr hsource, mem_typeNames_toPolicy.mpr hnew,
      fun hprocess => mem_typeNames_toPolicy.mpr (htarget hprocess)⟩
  contexts := by
    intro entry hentry
    obtain ⟨hstarts, htarget⟩ := h.contexts entry hentry
    exact ⟨hstarts, mem_typeNames_toPolicy.mpr htarget⟩
  ports := by
    intro binding hbinding
    obtain ⟨decl, hdecl, hname, hport⟩ := h.ports binding hbinding
    obtain ⟨united, hunited, hsame, hlabels⟩ := exists_decl_uniteTypes hdecl
    exact ⟨united, hunited, hsame.trans hname, List.contains_iff_mem.mpr (hlabels _ hport)⟩
  capabilities := by
    intro capability hcapability
    obtain ⟨guarded, hguarded, -, hsource⟩ := h.capabilities capability hcapability
    exact mem_typeNames_toPolicy.mpr (hsource ▸ (h.rules guarded hguarded).2.1)
  domains := by
    intro transition htransition
    obtain ⟨declared, hdeclared, rfl, -⟩ := hinfers.transitions transition htransition
    obtain ⟨hsource, hentry, hnew⟩ := h.names_of_declared hdeclared
    exact ⟨mem_typeNames_toPolicy.mpr hsource, mem_typeNames_toPolicy.mpr hnew,
      mem_typeNames_toPolicy.mpr hentry⟩
  booleans := by
    intro condition hdepends
    refine exists_filter_uniteBooleans (mem_ofList.mpr (List.mem_filterMap.mpr ?_))
    rcases hdepends with ⟨block, hblock, rfl⟩ | ⟨transition, htransition, hmem⟩
    · obtain ⟨-, rule, hrule⟩ := mem_blocks.mp hblock
      exact ⟨_, hrule, rfl⟩
    · -- The first of the rules that come with a domain transition stands under its condition.
      obtain ⟨declared, -, rfl, hrules⟩ := hinfers.transitions transition htransition
      have hcondition : declared.condition = some condition := Option.mem_toList.mp hmem
      have hfirst := hrules _ List.mem_cons_self
      refine ⟨_, mem_effective.mpr ⟨List.mem_append_right _ hfirst, ?_⟩, hcondition⟩
      exact distinct_ne_nil (List.cons_ne_nil _ _)

/-- The policy of a closed fragment is anchored. -/
theorem IsClosed.isAnchored_toPolicy (h : fragment.IsClosed attributes)
    (hinfers : fragment.Infers inference) (moduleName version : String) :
    (fragment.toPolicy inference moduleName version).IsAnchored where
  capabilities := by
    intro capability hcapability
    obtain ⟨guarded, hguarded, hsome, hsource⟩ := h.capabilities capability hcapability
    have heffective := mem_effective.mpr ⟨List.mem_append_left inference.rules hguarded, hsome⟩
    exact ⟨guarded.rule, mem_allRules_toPolicy.mpr ⟨guarded, heffective, rfl⟩, hsource⟩
  domains := by
    intro transition htransition
    obtain ⟨declared, hdeclared, rfl, -⟩ := hinfers.transitions transition htransition
    obtain ⟨change, hchange, -, hsource, hentry, hnew⟩ := h.declared declared hdeclared
    exact ⟨change, hchange, hsource, hentry, hnew⟩

end Fragment

/-! ## Fragments of rules and roles -/

namespace Generator

open Fragment (isClosed_empty isClosed_concat)

variable {generator : Generator} {set : RuleSet} {rule : Rule} {clause : TransitionClause}

/-- What an object contributes: declarations, and file contexts and ports whose types are among
them. -/
structure IsObject (object : Fragment) : Prop where
  plain : object.rules = [] ∧ object.typeTransitions = [] ∧ object.capabilities = []
    ∧ object.declared = []
  contexts : ∀ entry ∈ object.fileContexts,
    Text.startsWith entry.pattern "/" = true ∧ entry.targetType ∈ object.names
  ports : ∀ binding ∈ object.portBindings, ∃ decl ∈ object.types,
    decl.name = binding.typeName ∧ TypeName.portAttribute ∈ decl.attributes

theorem isObject_empty : IsObject {} := by
  constructor <;> simp

/-- The file contexts and ports of an object are closed among more declarations. -/
theorem IsObject.mono {object : Fragment} (h : IsObject object) {types : List TypeDecl}
    (htypes : ∀ decl ∈ object.types, decl ∈ types) :
    (∀ entry ∈ object.fileContexts,
        Text.startsWith entry.pattern "/" = true ∧ entry.targetType ∈ types.map (·.name))
      ∧ ∀ binding ∈ object.portBindings, ∃ decl ∈ types,
          decl.name = binding.typeName ∧ TypeName.portAttribute ∈ decl.attributes := by
  constructor
  · intro entry hentry
    obtain ⟨hstarts, hname⟩ := h.contexts entry hentry
    obtain ⟨decl, hdecl, heq⟩ := List.mem_map.mp hname
    exact ⟨hstarts, List.mem_map.mpr ⟨decl, htypes decl hdecl, heq⟩⟩
  · intro binding hbinding
    obtain ⟨decl, hdecl, hport⟩ := h.ports binding hbinding
    exact ⟨decl, htypes decl hdecl, hport⟩

theorem names_pathFragment (generator : Generator) (path : String) (rule : Rule) :
    (generator.pathFragment path rule).names = [generator.scope.pathType path] := by
  simp only [Fragment.names, pathFragment, List.map_cons, List.map_nil]

theorem names_portFragment (generator : Generator) (protocol : Protocol) (port : String) :
    (generator.portFragment protocol port).names = [generator.scope.portType port] := by
  simp only [Fragment.names, portFragment, TypeDecl.of, List.map_cons, List.map_nil]

theorem isObject_pathFragment (generator : Generator) {path : String}
    (h : Text.startsWith path "/" = true) (rule : Rule) :
    IsObject (generator.pathFragment path rule) where
  plain := by simp [pathFragment]
  contexts := by
    intro entry hentry
    rw [names_pathFragment]
    simp only [pathFragment] at hentry
    split at hentry
    · rw [List.mem_singleton] at hentry
      have hpattern : entry.pattern = Glob.pattern path := by rw [hentry]
      have htarget : entry.targetType = generator.scope.pathType path := by rw [hentry]
      rw [hpattern, htarget]
      exact ⟨Glob.startsWith_pattern h, List.mem_singleton_self _⟩
    · cases hentry
  ports := by simp [pathFragment]

theorem isObject_portFragment (generator : Generator) (protocol : Protocol) (port : String) :
    IsObject (generator.portFragment protocol port) where
  plain := by simp [portFragment]
  contexts := by simp [portFragment]
  ports := by
    intro binding hbinding
    simp only [portFragment, List.mem_singleton] at hbinding
    subst hbinding
    refine ⟨_, List.mem_singleton_self _, rfl, ?_⟩
    exact mem_ofList.mpr (List.mem_singleton_self _)

theorem isObject_tokenFragment (token objectClass : String) :
    IsObject (tokenFragment attributes token objectClass) := by
  constructor <;> simp [tokenFragment]

theorem isObject_objectFragment (hspelled : rule.IsSpelled) (objectClass : String) :
    IsObject (generator.objectFragment attributes rule objectClass) := by
  unfold objectFragment
  split
  · next path hpath => exact isObject_pathFragment generator (hspelled.absolute path hpath) rule
  · exact isObject_portFragment ..
  · exact isObject_portFragment ..
  · exact isObject_tokenFragment ..

theorem isObject_transitionObject (hspelled : rule.IsSpelled) :
    IsObject (generator.transitionObject rule) := by
  unfold transitionObject
  split
  · next path hpath => exact isObject_pathFragment generator (hspelled.absolute path hpath) rule
  · exact isObject_empty

/-- A token is declared, or is one of the targets that need no declaration. -/
theorem isTarget_token (token objectClass : String) :
    IsTarget attributes (tokenFragment attributes token objectClass).names token := by
  unfold tokenFragment
  by_cases hself : token = AllowRule.selfTarget
  · exact Or.inr (Or.inl hself)
  by_cases hattribute : token ∈ attributes
  · exact Or.inr (Or.inr (Or.inl hattribute))
  by_cases hending : Text.endsWith token TypeName.ending = true
  · rw [if_neg (by simp [hself, hattribute, hending])]
    exact Or.inl (List.mem_singleton_self _)
  · exact Or.inr (Or.inr (Or.inr (by simpa using hending)))

/-- The object of a rule declares the target of the rule, where that needs a declaration. -/
theorem isTarget_objectFragment (attributes : List String) (generator : Generator) (rule : Rule)
    (objectClass : String) :
    IsTarget attributes (generator.objectFragment attributes rule objectClass).names
      (generator.targetOf rule.objectRef) := by
  unfold objectFragment targetOf
  split
  · rw [names_pathFragment]
    exact Or.inl (List.mem_singleton_self _)
  · rw [names_portFragment]
    exact Or.inl (List.mem_singleton_self _)
  · rw [names_portFragment]
    exact Or.inl (List.mem_singleton_self _)
  · exact isTarget_token ..

/-! ### Rules that allow -/

theorem isClosed_capabilityFragment (rule : Rule) (meaning : ActionMeaning) :
    (capabilityFragment rule meaning).IsClosed attributes where
  rules := by
    intro guarded hguarded
    obtain rfl := List.mem_singleton.mp hguarded
    exact ⟨nodup_distinct _, List.mem_singleton_self _, Or.inr (Or.inl rfl)⟩
  changes := by simp [capabilityFragment]
  contexts := by simp [capabilityFragment]
  ports := by simp [capabilityFragment]
  capabilities := by
    intro capability hmem
    obtain ⟨permission, hpermission, rfl⟩ := List.mem_map.mp hmem
    refine ⟨_, List.mem_singleton_self _, ?_, rfl⟩
    exact List.ne_nil_of_mem (mem_distinct.mpr hpermission)
  declared := by simp [capabilityFragment]

theorem isClosed_accessFragment (hspelled : rule.IsSpelled) (meaning : ActionMeaning) :
    (generator.accessFragment attributes rule meaning).IsClosed attributes := by
  have hobject : IsObject (generator.objectFragment attributes rule meaning.objectClass) :=
    isObject_objectFragment hspelled meaning.objectClass
  have htarget := isTarget_objectFragment attributes generator rule meaning.objectClass
  unfold accessFragment
  generalize generator.objectFragment attributes rule meaning.objectClass = object at *
  generalize generator.targetOf rule.objectRef = target at *
  obtain ⟨hrules, hchanges, hcapabilities, hdeclared⟩ := hobject.plain
  constructor
  case rules =>
    intro guarded hguarded
    obtain rfl := List.mem_singleton.mp hguarded
    refine ⟨nodup_distinct _, List.mem_cons_self, htarget.mono fun hname => ?_⟩
    exact List.mem_cons_of_mem _ hname
  case changes => simp [hchanges]
  case contexts => exact (hobject.mono fun decl hdecl => List.mem_cons_of_mem _ hdecl).1
  case ports => exact (hobject.mono fun decl hdecl => List.mem_cons_of_mem _ hdecl).2
  case capabilities => simp [hcapabilities]
  case declared => simp [hdeclared]

theorem isClosed_ruleFragment (hspelled : rule.IsSpelled) :
    (generator.ruleFragment attributes rule).IsClosed attributes := by
  unfold ruleFragment
  split
  · split
    · exact isClosed_capabilityFragment ..
    · exact isClosed_accessFragment hspelled _
  · exact isClosed_empty

/-! ### Roles and changes of type -/

theorem isClosed_roleFragment (role : Role) : (roleFragment role).IsClosed attributes := by
  unfold roleFragment
  split
  · split
    · exact isClosed_empty
    · constructor <;> simp
  · constructor <;> simp

theorem isClosed_transitionFragment (hspelled : rule.IsSpelled) :
    (generator.transitionFragment rule clause).IsClosed attributes := by
  have hobject : IsObject (generator.transitionObject rule) := isObject_transitionObject hspelled
  unfold transitionFragment
  generalize generator.transitionObject rule = object at *
  generalize generator.transitionTarget rule clause = target at *
  obtain ⟨hrules, hchanges, hcapabilities, hdeclared⟩ := hobject.plain
  split
  · next hprocess =>
    -- Each of the three grants is between types that stand at the end of the declarations.
    constructor
    case rules =>
      intro guarded hguarded
      simp only [processGrants, List.mem_cons, List.not_mem_nil, or_false] at hguarded
      rcases hguarded with rfl | rfl | rfl <;>
        exact ⟨nodup_distinct _, by simp [Fragment.names, TypeDecl.of, grant, AllowRule.of],
          Or.inl (by simp [Fragment.names, TypeDecl.of, grant, AllowRule.of])⟩
    case changes =>
      intro change hchange
      obtain rfl := List.mem_singleton.mp hchange
      simp [Fragment.names, TypeDecl.of]
    case contexts =>
      exact (hobject.mono fun decl hdecl => List.mem_append_left _ hdecl).1
    case ports =>
      exact (hobject.mono fun decl hdecl => List.mem_append_left _ hdecl).2
    case capabilities => simp [hcapabilities]
    case declared =>
      intro declared hmem
      obtain rfl := List.mem_singleton.mp hmem
      exact ⟨_, List.mem_singleton_self _, beq_iff_eq.mp hprocess, rfl, rfl, rfl⟩
  · next hprocess =>
    constructor
    case rules => simp [hrules]
    case changes =>
      intro change hchange
      obtain rfl := List.mem_singleton.mp hchange
      have hclass : clause.objectClass ≠ ObjectClass.process := by
        simpa [TransitionClause.isProcess] using hprocess
      simp [Fragment.names, TypeDecl.of, hclass]
    case contexts =>
      exact (hobject.mono fun decl hdecl => List.mem_append_left _ hdecl).1
    case ports =>
      exact (hobject.mono fun decl hdecl => List.mem_append_left _ hdecl).2
    case capabilities => simp [hcapabilities]
    case declared => simp [hdeclared]

/-- Each rule and each role of a table declares what it mentions. -/
theorem isClosed_fragment (hspelled : ∀ rule ∈ set.rules, rule.IsSpelled) :
    (generator.fragment set).IsClosed (roleAttributes set.roles) := by
  rw [fragment_eq_concat]
  refine isClosed_concat fun part hpart => ?_
  rcases mem_fragments.mp hpart with ⟨rule, hrule, -, rfl⟩ | ⟨role, -, rfl⟩
    | ⟨rule, hrule, clause, -, rfl⟩
  · exact isClosed_ruleFragment (hspelled rule hrule)
  · exact isClosed_roleFragment role
  · exact isClosed_transitionFragment (hspelled rule hrule)

theorem infers_inference (generator : Generator) (fragment : Fragment) :
    fragment.Infers (generator.inference fragment) := by
  unfold inference
  split
  · constructor
    · intro guarded hguarded
      obtain ⟨declared, hdeclared, -, -, hrule⟩ := Inference.mem_rules_run.mp hguarded
      exact ⟨declared, hdeclared, hrule⟩
    · intro transition htransition
      obtain ⟨declared, hdeclared, haccepted, rfl⟩ :=
        Inference.mem_transitions_run.mp htransition
      exact ⟨declared, hdeclared, rfl, fun rule hrule =>
        Inference.mem_rules_run.mpr ⟨declared, hdeclared, haccepted, rfl, hrule⟩⟩
  · constructor <;> simp [Inference.empty]

/-- A generated policy is closed and anchored. -/
theorem isClosed_generate (generator : Generator)
    (hspelled : ∀ rule ∈ set.rules, rule.IsSpelled) :
    (generator.generate set).IsClosed (roleAttributes set.roles)
      ∧ (generator.generate set).IsAnchored := by
  have hclosed : (generator.fragment set).IsClosed (roleAttributes set.roles) :=
    isClosed_fragment hspelled
  have hinfers := generator.infers_inference (generator.fragment set)
  exact ⟨hclosed.toPolicy hinfers _ _, hclosed.isAnchored_toPolicy hinfers _ _⟩

end Generator

end TypeEnforcement
