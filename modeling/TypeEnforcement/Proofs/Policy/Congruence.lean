import TypeEnforcement.Proofs.Policy.Composition
/-!
# What the normal form depends on

The normal form of a policy depends on the parts of the policy as sets (`Policy.SameParts`): their
order and their repetition do not matter, and neither does it matter in which of the blocks of its
condition a rule stands.

Two things in a policy do depend on the order of its parts: of the comments on a type the first
counts, and of the file contexts with one key the first counts. Comments are only carried along, so
they may be erased before or after (`Optimizer.run_withoutComments`); file contexts are asked to be
unambiguous.

## Main results

* `Optimizer.run_withoutComments`: comments decide nothing.
* `Optimizer.run_congr`: the normal form depends on the parts of a policy as sets.
-/

namespace TypeEnforcement

open Canonical

/-! ## Comments -/

namespace TypeDecl

variable {decls : List TypeDecl} {name : String}

/-- A declaration without its comment. -/
def withoutComment (decl : TypeDecl) : TypeDecl :=
  { decl with comment := none }

@[simp] theorem name_withoutComment (decl : TypeDecl) : decl.withoutComment.name = decl.name := rfl

theorem comment_of_mem_withoutComment {decl : TypeDecl}
    (h : decl ∈ decls.map (·.withoutComment)) : decl.comment = none := by
  obtain ⟨original, -, rfl⟩ := List.mem_map.mp h
  rfl

theorem named_withoutComment (name : String) (decls : List TypeDecl) :
    named name (decls.map (·.withoutComment)) = (named name decls).map (·.withoutComment) := by
  rw [named, List.filter_map]
  rfl

theorem union_withoutComment (name : String) (decls : List TypeDecl) :
    union name (decls.map (·.withoutComment)) = (union name decls).withoutComment := by
  have hnone : (decls.map (·.withoutComment)).findSome? (·.comment) = none := by
    simp [withoutComment]
  rw [union, hnone, List.flatMap_map]
  rfl

theorem merge_withoutComment (decls : List TypeDecl) :
    merge (decls.map (·.withoutComment)) = (merge decls).map (·.withoutComment) := by
  simp only [merge, List.map_map, Function.comp_def, name_withoutComment, named_withoutComment,
    union_withoutComment]

end TypeDecl

namespace FileContext

/-- A file context without its comment. -/
def withoutComment (entry : FileContext) : FileContext :=
  { entry with comment := none }

@[simp] theorem key_withoutComment (entry : FileContext) : entry.withoutComment.key = entry.key :=
  rfl

theorem merge_withoutComment (entries : List FileContext) :
    merge (entries.map (·.withoutComment)) = (merge entries).map (·.withoutComment) := by
  simp only [merge, List.map_map, Function.comp_def, key_withoutComment, List.find?_map,
    List.map_filterMap]

end FileContext

namespace Policy

/-- A policy without the comments on its types and its file contexts. -/
def withoutComments (policy : Policy) : Policy :=
  { policy with
    types := policy.types.map (·.withoutComment)
    fileContexts := policy.fileContexts.map (·.withoutComment) }

theorem unusedTypes_withoutComments (policy : Policy) :
    policy.withoutComments.unusedTypes = policy.unusedTypes := by
  have hreferences : policy.withoutComments.references = policy.references := rfl
  rw [unusedTypes, hreferences, withoutComments, List.filter_map, List.map_map]
  rfl

theorem eliminateIf_withoutComments (policy : Policy) (wanted : Bool) :
    policy.withoutComments.eliminateIf wanted = (policy.eliminateIf wanted).withoutComments := by
  cases wanted <;> rfl

theorem pruneTypes_withoutComments (policy : Policy) :
    policy.withoutComments.pruneTypes = policy.pruneTypes.withoutComments := by
  have hreferences : policy.withoutComments.references = policy.references := rfl
  rw [pruneTypes, pruneTypes, unusedTypes_withoutComments, hreferences]
  simp only [withoutComments, List.filter_map]
  rfl

theorem pruneIf_withoutComments (policy : Policy) (wanted : Bool) :
    policy.withoutComments.pruneIf wanted = (policy.pruneIf wanted).withoutComments := by
  cases wanted with
  | false => rfl
  | true => exact pruneTypes_withoutComments policy

end Policy

namespace Optimizer

theorem merged_withoutComments (policy : Policy) :
    merged policy.withoutComments = (merged policy).withoutComments := by
  simp only [merged, Policy.mergeRules, Policy.withoutComments, TypeDecl.merge_withoutComment,
    FileContext.merge_withoutComment]

/-- Comments decide nothing: a policy without them has the normal form without them. -/
theorem run_withoutComments (optimizer : Optimizer) (policy : Policy) :
    optimizer.run policy.withoutComments = (optimizer.run policy).withoutComments := by
  rw [run_eq, run_eq, merged_withoutComments, Policy.eliminateIf_withoutComments,
    Policy.pruneIf_withoutComments]
  rfl

end Optimizer

/-! ## Mergers of lists with the same members -/

namespace AllowRule

variable {rules others : List AllowRule}

theorem mem_merge_congr (h : ∀ rule, rule ∈ rules ↔ rule ∈ others) (rule : AllowRule) :
    rule ∈ merge rules ↔ rule ∈ merge others := by
  have hpermissions : ofList (withOpen rule.objectClass (permissionsFor rule.key rules))
      = ofList (withOpen rule.objectClass (permissionsFor rule.key others)) :=
    ofList_congr fun permission => by simp only [mem_withOpen, mem_permissionsFor, h]
  simp only [mem_merge, hpermissions, h]

/-- The merger of rules depends on the rules as a set. -/
theorem merge_congr (h : ∀ rule, rule ∈ rules ↔ rule ∈ others) : merge rules = merge others :=
  eq_of_mem_iff_of_key (isMerged_merge rules).keys (isMerged_merge others).keys (mem_merge_congr h)

end AllowRule

namespace ConditionalBlock

variable {blocks others : List ConditionalBlock}

/-- The merger of blocks depends on which rules stand under which condition. -/
theorem merge_congr
    (h : ∀ condition rule,
      rule ∈ rulesUnder condition blocks ↔ rule ∈ rulesUnder condition others) :
    merge blocks = merge others := by
  refine eq_of_mem_iff_of_key (areMerged_merge blocks).conditions
    (areMerged_merge others).conditions fun block => ?_
  rw [mem_merge, mem_merge, AllowRule.merge_congr (h block.condition)]

end ConditionalBlock

namespace TypeDecl

variable {decls others : List TypeDecl}

theorem union_congr {name : String} (h : ∀ decl, decl ∈ decls ↔ decl ∈ others)
    (hcomments : ∀ decl ∈ decls, decl.comment = none) : union name decls = union name others := by
  have hattributes :
      ofList (decls.flatMap (·.attributes)) = ofList (others.flatMap (·.attributes)) :=
    ofList_congr fun label => by simp only [List.mem_flatMap, h]
  have hcomment : decls.findSome? (·.comment) = none := List.findSome?_eq_none_iff.mpr hcomments
  have hcomment' : others.findSome? (·.comment) = none :=
    List.findSome?_eq_none_iff.mpr fun decl hdecl => hcomments decl ((h decl).mpr hdecl)
  rw [union, union, of, of, hattributes, hcomment, hcomment']

theorem union_named_congr (h : ∀ decl, decl ∈ decls ↔ decl ∈ others)
    (hcomments : ∀ decl ∈ decls, decl.comment = none) (name : String) :
    union name (named name decls) = union name (named name others) := by
  refine union_congr (fun decl => ?_) fun decl hdecl => ?_
  · simp only [named, List.mem_filter, h]
  · exact hcomments decl (List.mem_of_mem_filter hdecl)

/-- The merger of declarations without comments depends on the declarations as a set. -/
theorem merge_congr (h : ∀ decl, decl ∈ decls ↔ decl ∈ others)
    (hcomments : ∀ decl ∈ decls, decl.comment = none) : merge decls = merge others := by
  have hnames : ofList (decls.map (·.name)) = ofList (others.map (·.name)) :=
    ofList_congr fun name => by simp only [List.mem_map, h]
  simp only [merge, hnames, union_named_congr h hcomments]

end TypeDecl

namespace FileContext

/-- Whether no two different file contexts have one key. -/
def AreUnambiguous (entries : List FileContext) : Prop :=
  ∀ entry ∈ entries, ∀ other ∈ entries, entry.key = other.key → entry = other

variable {entries others : List FileContext}

theorem AreUnambiguous.mem_merge_iff (h : AreUnambiguous entries) {entry : FileContext} :
    entry ∈ merge entries ↔ entry ∈ entries := by
  rw [mem_merge]
  constructor
  · exact List.mem_of_find?_eq_some
  · intro hentry
    obtain ⟨found, hfound, hfind, hkey⟩ := exists_find?_key hentry
    rw [hfind, h found hfound entry hentry hkey]

/-- The merger of unambiguous file contexts depends on the file contexts as a set. -/
theorem merge_congr (h : ∀ entry, entry ∈ entries ↔ entry ∈ others)
    (hentries : AreUnambiguous entries) : merge entries = merge others := by
  have hothers : AreUnambiguous others := by
    intro entry hentry other hother
    exact hentries entry ((h entry).mpr hentry) other ((h other).mpr hother)
  refine eq_of_mem_iff_of_key (areMerged_merge entries) (areMerged_merge others) fun entry => ?_
  rw [hentries.mem_merge_iff, hothers.mem_merge_iff, h]

end FileContext

/-! ## Policies with the same parts -/

/-- Whether two policies have the same parts, as sets. -/
structure Policy.SameParts (policy other : Policy) : Prop where
  moduleName : policy.moduleName = other.moduleName
  version : policy.version = other.version
  types : ∀ decl, decl ∈ policy.types ↔ decl ∈ other.types
  allowRules : ∀ rule, rule ∈ policy.allowRules ↔ rule ∈ other.allowRules
  typeTransitions : ∀ change, change ∈ policy.typeTransitions ↔ change ∈ other.typeTransitions
  fileContexts : ∀ entry, entry ∈ policy.fileContexts ↔ entry ∈ other.fileContexts
  capabilities : ∀ capability, capability ∈ policy.capabilities ↔ capability ∈ other.capabilities
  portBindings : ∀ binding, binding ∈ policy.portBindings ↔ binding ∈ other.portBindings
  booleans : ∀ decl, decl ∈ policy.booleans ↔ decl ∈ other.booleans
  conditionals : ∀ condition rule,
    rule ∈ ConditionalBlock.rulesUnder condition policy.conditionals ↔
      rule ∈ ConditionalBlock.rulesUnder condition other.conditionals
  domainTransitions : ∀ transition,
    transition ∈ policy.domainTransitions ↔ transition ∈ other.domainTransitions

namespace Optimizer

variable {policy other : Policy}

theorem sortParts_merged_congr (h : policy.SameParts other)
    (hcomments : ∀ decl ∈ policy.types, decl.comment = none)
    (hcontexts : FileContext.AreUnambiguous policy.fileContexts) :
    (merged policy).sortParts = (merged other).sortParts := by
  simp only [merged, Policy.mergeRules, Policy.sortParts, h.moduleName, h.version,
    TypeDecl.merge_congr h.types hcomments, AllowRule.merge_congr h.allowRules,
    ofList_congr h.typeTransitions, FileContext.merge_congr h.fileContexts hcontexts,
    ofList_congr h.capabilities, ofList_congr h.portBindings, ofList_congr h.booleans,
    ConditionalBlock.merge_congr h.conditionals, ofList_congr h.domainTransitions]

/-- The normal form of a policy depends on its parts as sets, where it has no comments and its file
contexts are unambiguous. -/
theorem run_congr (optimizer : Optimizer) (h : policy.SameParts other)
    (hcomments : ∀ decl ∈ policy.types, decl.comment = none)
    (hcontexts : FileContext.AreUnambiguous policy.fileContexts) :
    optimizer.run policy = optimizer.run other := by
  -- The optional passes may as well come last: what they find is then the same.
  simp only [run_eq, ← Policy.eliminateIf_sortParts, ← Policy.pruneIf_sortParts,
    sortParts_merged_congr h hcomments hcontexts]

end Optimizer

end TypeEnforcement
