import TypeEnforcement.Proofs.Generation.References
import TypeEnforcement.Proofs.TypeName.Words
/-!
# Attributes and roles of a generated policy

A role row gives the type of its member an attribute, the sanitized name of the role
(`Generator.exists_decl_of_mem_roles`). All other attributes have names of their own, which are
tidy, too, so no type of a generated policy and of its normal form has an attribute that is not
(`Generator.areTidy_generate`, `Optimizer.areTidy_run`).

Pruning keeps a type for its name or for one of its attributes. So a type stays if a rule allows
something on an attribute of it (`Optimizer.exists_decl_run_of_attribute`).
-/

namespace TypeEnforcement

open Canonical

variable {generator : Generator} {set : RuleSet} {policy : Policy}

/-! ## Tidy attributes -/

namespace TypeDecl

/-- Whether all attributes of declarations have tidy names. -/
def AreTidy (decls : List TypeDecl) : Prop :=
  ∀ decl ∈ decls, ∀ label ∈ decl.attributes, TypeName.IsTidy label

variable {decls others : List TypeDecl}

theorem areTidy_nil : AreTidy [] := by
  simp [AreTidy]

theorem areTidy_append : AreTidy (decls ++ others) ↔ AreTidy decls ∧ AreTidy others :=
  List.forall_mem_append

theorem areTidy_cons_of {name : String} {attributes : List String} {comment : Option String} :
    AreTidy (of name attributes comment :: decls) ↔
      (∀ label ∈ attributes, TypeName.IsTidy label) ∧ AreTidy decls := by
  rw [AreTidy, List.forall_mem_cons]
  simp only [of, mem_ofList]
  rfl

/-- The attributes of a united declaration are those of the declarations. -/
theorem AreTidy.union (h : AreTidy decls) (name : String) :
    ∀ label ∈ (union name (named name decls)).attributes, TypeName.IsTidy label := by
  intro label hlabel
  obtain ⟨found, hfound, hmem⟩ := List.mem_flatMap.mp (mem_ofList.mp hlabel)
  exact h found (List.mem_filter.mp hfound).1 label hmem

theorem AreTidy.merge (h : AreTidy decls) : AreTidy (merge decls) := by
  intro decl hdecl
  obtain ⟨name, -, rfl⟩ := List.mem_map.mp hdecl
  exact h.union name

theorem AreTidy.uniteTypes (h : AreTidy decls) : AreTidy (Fragment.uniteTypes decls) := by
  intro decl hdecl
  obtain ⟨name, -, rfl⟩ := List.mem_map.mp hdecl
  exact h.union name

end TypeDecl

namespace TypeName

/-- The attributes of paths have tidy names. -/
theorem isTidy_of_mem_pathAttributes {path label : String} (h : label ∈ pathAttributes path) :
    IsTidy label := by
  have hrules : ∀ rule ∈ attributeRules, IsTidy rule.name := by decide
  rcases List.mem_cons.mp (mem_ofList.mp h) with rfl | hmem
  · split <;> decide
  · obtain ⟨rule, hrule, rfl⟩ := List.mem_map.mp hmem
    exact hrules rule (List.mem_filter.mp hrule).1

end TypeName

/-! ## Fragments -/

namespace Generator

open TypeDecl (AreTidy areTidy_nil areTidy_append areTidy_cons_of)

theorem areTidy_pathFragment (generator : Generator) (path : String) (rule : Rule) :
    AreTidy (generator.pathFragment path rule).types := by
  intro decl hdecl
  obtain rfl := List.mem_singleton.mp hdecl
  exact fun label => TypeName.isTidy_of_mem_pathAttributes

theorem areTidy_objectFragment (generator : Generator) (attributes : List String) (rule : Rule)
    (objectClass : String) :
    AreTidy (generator.objectFragment attributes rule objectClass).types := by
  have hport : ∀ protocol port, AreTidy (generator.portFragment protocol port).types :=
    fun _ _ => areTidy_cons_of.mpr ⟨by decide, areTidy_nil⟩
  unfold objectFragment
  split
  · exact generator.areTidy_pathFragment _ rule
  · exact hport _ _
  · exact hport _ _
  · unfold tokenFragment
    split
    · exact areTidy_nil
    · refine areTidy_cons_of.mpr ⟨?_, areTidy_nil⟩
      unfold tokenAttributes
      split
      · decide
      · split
        · decide
        · split <;> decide

theorem areTidy_ruleFragment (generator : Generator) (attributes : List String) (rule : Rule) :
    AreTidy (generator.ruleFragment attributes rule).types := by
  unfold ruleFragment
  split
  · split
    · exact areTidy_cons_of.mpr ⟨by decide, areTidy_nil⟩
    · exact areTidy_cons_of.mpr ⟨by decide, generator.areTidy_objectFragment _ rule _⟩
  · exact areTidy_nil

/-- The attribute of a role is sanitized. -/
theorem areTidy_roleFragment (role : Role) : AreTidy (roleFragment role).types := by
  cases role with
  | membership member name =>
    by_cases hnone : TypeName.sanitize name = ""
    · rw [roleFragment, if_pos hnone]
      exact areTidy_nil
    · rw [roleFragment, if_neg hnone]
      refine areTidy_cons_of.mpr ⟨?_, areTidy_nil⟩
      intro label hlabel
      obtain rfl := List.mem_singleton.mp hlabel
      exact TypeName.isTidy_sanitize name
  | boolean name default => exact areTidy_nil

theorem areTidy_transitionFragment (generator : Generator) (rule : Rule)
    (clause : TransitionClause) :
    AreTidy (generator.transitionFragment rule clause).types := by
  have hobject : AreTidy (generator.transitionObject rule).types := by
    unfold transitionObject
    split
    · exact generator.areTidy_pathFragment _ rule
    · exact areTidy_nil
  unfold transitionFragment
  split
  · refine areTidy_append.mpr ⟨hobject, ?_⟩
    simp only [areTidy_cons_of]
    exact ⟨by decide, by decide, by decide, areTidy_nil⟩
  · refine areTidy_append.mpr ⟨hobject, ?_⟩
    simp only [areTidy_cons_of]
    exact ⟨by decide, by decide, areTidy_nil⟩

/-- All attributes of a generated policy have tidy names. -/
theorem areTidy_generate (generator : Generator) (set : RuleSet) :
    AreTidy (generator.generate set).types := by
  apply TypeDecl.AreTidy.uniteTypes
  intro decl hdecl
  obtain ⟨part, hpart, hmem⟩ := List.mem_flatMap.mp hdecl
  rcases mem_fragments.mp hpart with ⟨rule, -, -, rfl⟩ | ⟨role, -, rfl⟩ | ⟨rule, -, clause, -, rfl⟩
  · exact areTidy_ruleFragment _ _ rule decl hmem
  · exact areTidy_roleFragment role decl hmem
  · exact areTidy_transitionFragment _ rule clause decl hmem

/-! ## Members -/

/-- The type of the member of a role has the attribute of the role, if that has a name. -/
theorem exists_decl_of_mem_roles (generator : Generator) {member role : String}
    (hrole : .membership member role ∈ set.roles) (hsome : TypeName.sanitize role ≠ "") :
    ∃ decl ∈ (generator.generate set).types, decl.name = TypeName.ensureEnding member
      ∧ TypeName.sanitize role ∈ decl.attributes := by
  have hpart : roleFragment (.membership member role) ∈ generator.fragments set :=
    mem_fragments.mpr (Or.inr (Or.inl ⟨_, hrole, rfl⟩))
  have htypes : (roleFragment (.membership member role)).types
      = [.of (TypeName.ensureEnding member) [TypeName.sanitize role] none] := by
    rw [roleFragment, if_neg hsome]
  have hmem : .of (TypeName.ensureEnding member) [TypeName.sanitize role] none
      ∈ (generator.fragment set).types :=
    List.mem_flatMap.mpr ⟨_, hpart, by rw [htypes]; exact List.mem_singleton_self _⟩
  obtain ⟨decl, hdecl, hname, hlabels⟩ := Fragment.exists_decl_uniteTypes hmem
  exact ⟨decl, hdecl, hname, hlabels _ (mem_ofList.mpr List.mem_cons_self)⟩

end Generator

/-! ## Normal form -/

namespace Optimizer

theorem areTidy_run (optimizer : Optimizer) (h : TypeDecl.AreTidy policy.types) :
    TypeDecl.AreTidy (optimizer.run policy).types :=
  fun decl hdecl => h.merge decl (mem_types_run.mp hdecl).1

/-- A type stays declared, with its attributes, if the policy refers to one of them. -/
theorem exists_decl_run_of_attribute (optimizer : Optimizer) {decl : TypeDecl} {label : String}
    (hdecl : decl ∈ policy.types) (hlabel : label ∈ decl.attributes)
    (hreferred : label ∈ policy.references) :
    ∃ kept ∈ (optimizer.run policy).types, kept.name = decl.name ∧ label ∈ kept.attributes := by
  obtain ⟨kept, hkept, hname, hlabels⟩ := TypeDecl.exists_decl_merge hdecl
  have hused : kept.isAmong policy.references = true := by
    rw [TypeDecl.isAmong, Bool.or_eq_true, List.any_eq_true]
    exact Or.inr ⟨label, hlabels label hlabel, List.contains_iff_mem.mpr hreferred⟩
  exact ⟨kept, mem_types_run.mpr ⟨hkept, fun _ => hused⟩, hname, hlabels label hlabel⟩

end Optimizer

end TypeEnforcement
