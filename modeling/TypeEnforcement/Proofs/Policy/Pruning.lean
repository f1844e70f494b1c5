import Mathlib.Data.List.Nodup
import TypeEnforcement.Proofs.Policy.Survival
/-!
# Which types and file contexts are removed

A type is removed if nothing mentions it: no rule, change of type or port, by its name or by one of
its attributes. What a policy mentions is read off the policy as it is given (`Policy.Mentions`),
while the optimizer looks at it after merging and elimination; these drop no name. Attributes count
for a type whichever of its declarations has them, since declarations are united before. A file
context goes with the type that it gives, or because another one with its pattern and kind stands
before it.

## Main result

* `Optimizer.mem_types_and_fileContexts_run_iff`: the types and the file contexts that are left, and
  what they look like.
-/

namespace TypeEnforcement

open Canonical

/-! ## Merged declarations and file contexts -/

namespace TypeDecl

variable {decl : TypeDecl} {decls : List TypeDecl}

/-- Whether a declaration says what all declarations of its name say together. -/
structure IsUnionOf (decl : TypeDecl) (decls : List TypeDecl) : Prop where
  attributes : ∀ label, label ∈ decl.attributes ↔
    ∃ other ∈ decls, other.name = decl.name ∧ label ∈ other.attributes
  canonical : StrictlyIncreasing decl.attributes
  /-- The first comment that there is. -/
  comment : decl.comment = (decls.filter (·.name = decl.name)).findSome? (·.comment)

theorem isUnionOf_of_mem_merge (h : decl ∈ merge decls) : decl.IsUnionOf decls := by
  obtain ⟨name, -, rfl⟩ := List.mem_map.mp h
  refine ⟨fun label => ?_, strictlyIncreasing_ofList _, rfl⟩
  simp only [union, of, mem_ofList, List.mem_flatMap, named, List.mem_filter, beq_iff_eq,
    and_assoc]

theorem isAmong_iff {names : List String} :
    decl.isAmong names = true ↔
      decl.name ∈ names ∨ ∃ label ∈ decl.attributes, label ∈ names := by
  simp only [isAmong, Bool.or_eq_true, List.contains_iff_mem, List.any_eq_true]

end TypeDecl

namespace FileContext

/-- Whether a file context is the first of some with its pattern and kind. -/
def IsFirst (entry : FileContext) (entries : List FileContext) : Prop :=
  ∃ before after, entries = before ++ entry :: after
    ∧ ∀ other ∈ before, ¬ (other.pattern = entry.pattern ∧ other.kind = entry.kind)

theorem mem_merge_iff_isFirst {entry : FileContext} {entries : List FileContext} :
    entry ∈ merge entries ↔ entry.IsFirst entries := by
  have hkey : ∀ other : FileContext, other.key = entry.key ↔
      other.pattern = entry.pattern ∧ other.kind = entry.kind := by
    intro other
    rw [key, key, FileContextKey.mk.injEq]
  rw [mem_merge, List.find?_eq_some_iff_append, IsFirst]
  simp only [beq_self_eq_true, true_and, Bool.not_eq_true', beq_eq_false_iff_ne, ne_eq, hkey]

end FileContext

/-! ## Names that are mentioned -/

namespace Policy

variable {policy : Policy} {name : String}

/-- The names that a policy mentions: as source or target of a rule, unconditional or in a block, in
any part of a change of type, and as the type of a port. -/
inductive Mentions (policy : Policy) (name : String) : Prop where
  | rule {rule : AllowRule} : rule ∈ policy.allowRules →
      rule.source = name ∨ rule.target = name → Mentions policy name
  | blockRule {block : ConditionalBlock} {rule : AllowRule} : block ∈ policy.conditionals →
      rule ∈ block.rules → rule.source = name ∨ rule.target = name → Mentions policy name
  | change {change : TypeTransition} : change ∈ policy.typeTransitions →
      change.source = name ∨ change.target = name ∨ change.newType = name → Mentions policy name
  | port {binding : PortBinding} : binding ∈ policy.portBindings →
      binding.typeName = name → Mentions policy name

/-- Whether a type is declared and mentioned, by its name or by an attribute of one of its
declarations. -/
def IsUsed (policy : Policy) (name : String) : Prop :=
  ∃ decl ∈ policy.types, decl.name = name
    ∧ (policy.Mentions name ∨ ∃ label ∈ decl.attributes, policy.Mentions label)

theorem mem_references_iff_mentions : name ∈ policy.references ↔ policy.Mentions name := by
  simp only [mem_references, mem_allRules, mentions_iff, @eq_comm _ name]
  constructor
  · intro hcases
    rcases hcases with ⟨rule, hrule | ⟨block, hblock, hrule⟩, hname⟩ | ⟨change, hchange, hname⟩
      | ⟨binding, hbinding, hname⟩
    · exact Mentions.rule hrule hname
    · exact Mentions.blockRule hblock hrule hname
    · exact Mentions.change hchange hname
    · exact Mentions.port hbinding hname
  · intro hmentions
    cases hmentions with
    | rule hrule hname => exact Or.inl ⟨_, Or.inl hrule, hname⟩
    | blockRule hblock hrule hname => exact Or.inl ⟨_, Or.inr ⟨_, hblock, hrule⟩, hname⟩
    | change hchange hname => exact Or.inr (Or.inl ⟨_, hchange, hname⟩)
    | port hbinding hname => exact Or.inr (Or.inr ⟨_, hbinding, hname⟩)

theorem mem_typeNames_of_mem_merge {merged : TypeDecl}
    (hmerged : merged ∈ TypeDecl.merge policy.types) : merged.name ∈ policy.typeNames := by
  rw [typeNames, ← TypeDecl.names_merge]
  exact List.mem_map_of_mem hmerged

/-- The united declaration of a type is referred to if one of its declarations is. -/
theorem isAmong_references_iff {merged : TypeDecl}
    (hmerged : merged ∈ TypeDecl.merge policy.types) :
    merged.isAmong policy.references = true ↔ policy.IsUsed merged.name := by
  have hunion := TypeDecl.isUnionOf_of_mem_merge hmerged
  simp only [TypeDecl.isAmong_iff, mem_references_iff_mentions, hunion.attributes]
  constructor
  · intro hcases
    rcases hcases with hname | ⟨label, ⟨decl, hdecl, heq, hlabel⟩, hmentions⟩
    · obtain ⟨decl, hdecl, heq⟩ := mem_typeNames.mp (mem_typeNames_of_mem_merge hmerged)
      exact ⟨decl, hdecl, heq, Or.inl hname⟩
    · exact ⟨decl, hdecl, heq, Or.inr ⟨label, hlabel, hmentions⟩⟩
  · intro hused
    obtain ⟨decl, hdecl, heq, hname | ⟨label, hlabel, hmentions⟩⟩ := hused
    · exact Or.inl hname
    · exact Or.inr ⟨label, ⟨decl, hdecl, heq, hlabel⟩, hmentions⟩

end Policy

/-! ## Runs -/

namespace Optimizer

variable {optimizer : Optimizer} {policy : Policy} {name : String}

/-- The types that stay declared: with pruning, those that are used. -/
theorem mem_typeNames_run_iff :
    name ∈ (optimizer.run policy).typeNames ↔
      name ∈ policy.typeNames ∧ (optimizer.prunesTypes = true → policy.IsUsed name) := by
  constructor
  · intro hname
    obtain ⟨kept, hkept, rfl⟩ := Policy.mem_typeNames.mp hname
    obtain ⟨hmerged, hused⟩ := mem_types_run.mp hkept
    exact ⟨Policy.mem_typeNames_of_mem_merge hmerged,
      fun hprunes => (Policy.isAmong_references_iff hmerged).mp (hused hprunes)⟩
  · intro hboth
    obtain ⟨hname, hused⟩ := hboth
    obtain ⟨decl, hdecl, rfl⟩ := Policy.mem_typeNames.mp hname
    obtain ⟨kept, hkept, heq, -⟩ := TypeDecl.exists_decl_merge hdecl
    refine Policy.mem_typeNames.mpr ⟨kept, mem_types_run.mpr ⟨hkept, fun hprunes => ?_⟩, heq⟩
    exact (Policy.isAmong_references_iff hkept).mpr (heq ▸ hused hprunes)

/-- The file contexts that stay: the first ones whose type is not removed. -/
theorem mem_fileContexts_run_iff {entry : FileContext} :
    entry ∈ (optimizer.run policy).fileContexts ↔
      entry.IsFirst policy.fileContexts
        ∧ (entry.targetType ∉ policy.typeNames
          ∨ entry.targetType ∈ (optimizer.run policy).typeNames) := by
  constructor
  · intro hentry
    refine ⟨FileContext.mem_merge_iff_isFirst.mp (mem_fileContexts_run.mp hentry).1, ?_⟩
    by_cases hdeclared : entry.targetType ∈ policy.typeNames
    · exact Or.inr (mem_typeNames_of_mem_fileContexts_run hentry hdeclared)
    · exact Or.inl hdeclared
  · intro hboth
    obtain ⟨hfirst, htarget⟩ := hboth
    refine mem_fileContexts_run.mpr ⟨FileContext.mem_merge_iff_isFirst.mpr hfirst, ?_⟩
    intro hprunes decl hdecl hname
    rcases htarget with hundeclared | hkept
    · exact absurd (hname ▸ Policy.mem_typeNames_of_mem_merge hdecl) hundeclared
    · refine (Policy.isAmong_references_iff hdecl).mpr ?_
      exact hname ▸ (mem_typeNames_run_iff.mp hkept).2 hprunes

/-- A run leaves the declared types that are used, or all of them without pruning, each with one
declaration that says what its declarations said together. Of the file contexts it leaves those that
are the first with their pattern and kind, each once, unless their type was declared and is no
more. -/
theorem mem_types_and_fileContexts_run_iff (optimizer : Optimizer) (policy : Policy) :
    (∀ name, name ∈ (optimizer.run policy).typeNames ↔
        name ∈ policy.typeNames ∧ (optimizer.prunesTypes = true → policy.IsUsed name))
      ∧ ((optimizer.run policy).types.map (·.name)).Nodup
      ∧ (∀ decl ∈ (optimizer.run policy).types, decl.IsUnionOf policy.types)
      ∧ (∀ entry, entry ∈ (optimizer.run policy).fileContexts ↔
          entry.IsFirst policy.fileContexts
            ∧ (entry.targetType ∉ policy.typeNames
              ∨ entry.targetType ∈ (optimizer.run policy).typeNames))
      ∧ (optimizer.run policy).fileContexts.Nodup := by
  have hmerged : (optimizer.run policy).IsMerged := (isNormal_run optimizer policy).merged
  refine ⟨fun name => mem_typeNames_run_iff, hmerged.types.names.nodup, fun decl hdecl => ?_,
    fun entry => mem_fileContexts_run_iff, ?_⟩
  · exact TypeDecl.isUnionOf_of_mem_merge (mem_types_run.mp hdecl).1
  · exact List.Nodup.of_map FileContext.key (StrictlyIncreasing.nodup hmerged.contexts)

/-- The second declaration of a type keeps it by an attribute. Of two file contexts with one pattern
the first stays, one of a type that is no more goes, and one of a type declared elsewhere stays. -/
theorem isUsed_mentionedAttribute :
    let policy : Policy :=
      { moduleName := "app", version := "1.0"
        types := [.of "data" [] none, .of "idle" [] none, .of "app" [] none,
          .of "data" ["content"] (some "shared")]
        allowRules := [.of "app" "content" "file" ["read"]]
        fileContexts := [⟨"/data", .all, "data", none⟩, ⟨"/idle", .all, "idle", none⟩,
          ⟨"/data", .all, "app", none⟩, ⟨"/sys", .all, "system", none⟩] }
    policy.IsUsed "data"
      ∧ (run ⟨true, true⟩ policy).types
        = [.of "app" [] none, .of "data" ["content"] (some "shared")]
      ∧ (run ⟨true, true⟩ policy).fileContexts
        = [⟨"/data", .all, "data", none⟩, ⟨"/sys", .all, "system", none⟩] := by
  intro policy
  obtain ⟨hnames, -, -, -, -⟩ := mem_types_and_fileContexts_run_iff ⟨true, true⟩ policy
  have hkept : "data" ∈ (run ⟨true, true⟩ policy).typeNames := by decide +kernel
  exact ⟨((hnames "data").mp hkept).2 rfl, by decide +kernel, by decide +kernel⟩

end Optimizer

end TypeEnforcement
