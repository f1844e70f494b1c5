import TypeEnforcement.Canonical.Lemmas
import TypeEnforcement.Policy.Grants
import TypeEnforcement.Policy.NormalForm
import TypeEnforcement.Policy.Order
/-!
# Merging of rules

What a list of rules means is which permissions it gives for each key, `AllowRule.permissionsFor`.
`AllowRule.merge` keeps that, up to the permission to open, and brings the list into the form
`AllowRule.IsMerged`, in which each key has one rule.

## Main results

* `mem_permissionsFor_merge`: a merged list gives for a key what the list gives for it, and the
  permission to open where that is implied.
* `isMerged_merge`: a merged list is in merged form.
* `merge_eq_self`: a list in merged form is its own merger.
-/

namespace TypeEnforcement

open Canonical

/-! ## What a list of rules means -/

namespace AllowRule

theorem mem_permissionsFor {key : AccessKey} {rules : List AllowRule} {permission : String} :
    permission ∈ permissionsFor key rules ↔
      ∃ rule ∈ rules, rule.key = key ∧ permission ∈ rule.permissions := by
  simp only [permissionsFor, List.mem_flatMap, List.mem_filter, beq_iff_eq, and_assoc]

/-- Whether one permission on a class comes with another: itself, or the one to open with one that
includes it. -/
def Implies (objectClass given permission : String) : Prop :=
  permission = given ∨
    (permission = openPermission ∧ ObjectClass.isFileLike objectClass = true ∧ given ∈ openers)

theorem Implies.refl (objectClass permission : String) :
    Implies objectClass permission permission :=
  Or.inl rfl

/-- To open is none of the permissions that include it, so nothing follows in two steps. -/
theorem Implies.trans {objectClass first second third : String}
    (h : Implies objectClass first second) (h' : Implies objectClass second third) :
    Implies objectClass first third := by
  rcases h' with rfl | ⟨hopen, hfile, hopener⟩
  · exact h
  · rcases h with rfl | ⟨hsecond, -, -⟩
    · exact Or.inr ⟨hopen, hfile, hopener⟩
    · rw [hsecond] at hopener
      exact absurd hopener (by decide)

/-- Permissions with the one to open are what the single permissions imply. -/
theorem mem_withOpen {objectClass permission : String} {permissions : List String} :
    permission ∈ withOpen objectClass permissions ↔
      ∃ given ∈ permissions, Implies objectClass given permission := by
  unfold withOpen
  by_cases hopen : (ObjectClass.isFileLike objectClass && permissions.any openers.contains) = true
  · rw [if_pos hopen, List.mem_cons]
    simp only [Bool.and_eq_true, List.any_eq_true, List.contains_iff_mem] at hopen
    obtain ⟨hfile, opener, hmem, hopener⟩ := hopen
    constructor
    · intro hcases
      rcases hcases with heq | hgiven
      · exact ⟨opener, hmem, Or.inr ⟨heq, hfile, hopener⟩⟩
      · exact ⟨permission, hgiven, Implies.refl _ _⟩
    · intro hexists
      rcases hexists with ⟨given, hgiven, rfl | ⟨heq, -, -⟩⟩
      · exact Or.inr hgiven
      · exact Or.inl heq
  · rw [if_neg hopen]
    simp only [Bool.and_eq_true, List.any_eq_true, List.contains_iff_mem] at hopen
    constructor
    · intro hgiven
      exact ⟨permission, hgiven, Implies.refl _ _⟩
    · intro hexists
      rcases hexists with ⟨given, hgiven, rfl | ⟨-, hfile, hopener⟩⟩
      · exact hgiven
      · exact absurd ⟨hfile, given, hgiven, hopener⟩ hopen

@[simp] theorem key_ofKey (key : AccessKey) (permissions : List String) :
    (ofKey key permissions).key = key := rfl

@[simp] theorem permissions_ofKey (key : AccessKey) (permissions : List String) :
    (ofKey key permissions).permissions = permissions := rfl

@[simp] theorem ofKey_key (rule : AllowRule) : ofKey rule.key rule.permissions = rule := rfl

theorem mem_merge {rule : AllowRule} {rules : List AllowRule} :
    rule ∈ merge rules ↔
      (∃ other ∈ rules, other.key = rule.key) ∧
        rule.permissions
          = ofList (withOpen rule.objectClass (permissionsFor rule.key rules)) := by
  simp only [merge, List.mem_map, mem_ofList]
  constructor
  · intro hexists
    obtain ⟨_, ⟨other, hother, rfl⟩, rfl⟩ := hexists
    exact ⟨⟨other, hother, rfl⟩, rfl⟩
  · intro hexists
    obtain ⟨⟨other, hother, hkey⟩, hpermissions⟩ := hexists
    refine ⟨rule.key, ⟨other, hother, hkey⟩, ?_⟩
    show ofKey rule.key (ofList (withOpen rule.objectClass (permissionsFor rule.key rules)))
      = rule
    rw [← hpermissions, ofKey_key]

/-- A merged list gives for a key what the list gives for it, and the permission to open where it
is implied. -/
theorem mem_permissionsFor_merge {key : AccessKey} {rules : List AllowRule} {permission : String} :
    permission ∈ permissionsFor key (merge rules) ↔
      permission ∈ withOpen key.objectClass (permissionsFor key rules) := by
  rw [mem_permissionsFor]
  constructor
  · intro hexists
    obtain ⟨rule, hrule, rfl, hpermission⟩ := hexists
    rw [(mem_merge.mp hrule).2, mem_ofList] at hpermission
    exact hpermission
  · intro hpermission
    -- A permission that is given or implied comes from some rule, so the key has a merged rule.
    have hkey : ∃ other ∈ rules, other.key = key := by
      obtain ⟨given, hgiven, -⟩ := mem_withOpen.mp hpermission
      obtain ⟨other, hother, heq, -⟩ := mem_permissionsFor.mp hgiven
      exact ⟨other, hother, heq⟩
    refine ⟨ofKey key (ofList (withOpen key.objectClass (permissionsFor key rules))), ?_, rfl, ?_⟩
    · exact mem_merge.mpr ⟨hkey, rfl⟩
    · rwa [permissions_ofKey, mem_ofList]

theorem merge_eq_nil_iff {rules : List AllowRule} : merge rules = [] ↔ rules = [] := by
  constructor
  · intro h
    cases rules with
    | nil => rfl
    | cons rule rest =>
      have hmem : ofKey rule.key (ofList (withOpen rule.objectClass
          (permissionsFor rule.key (rule :: rest)))) ∈ merge (rule :: rest) :=
        mem_merge.mpr ⟨⟨rule, by simp, rfl⟩, rfl⟩
      rw [h] at hmem
      exact absurd hmem (by simp)
  · rintro rfl
    rfl

/-! ## Merged rules -/

/-- The form of a merged list: the keys are canonical, and so are the permissions of each rule,
which include the one to open where it is implied. -/
structure IsMerged (rules : List AllowRule) : Prop where
  keys : StrictlyIncreasing (rules.map key)
  permissions : ∀ rule ∈ rules, StrictlyIncreasing rule.permissions
  opens : ∀ rule ∈ rules, ∀ permission ∈ withOpen rule.objectClass rule.permissions,
    permission ∈ rule.permissions

theorem keys_merge (rules : List AllowRule) : (merge rules).map key = ofList (rules.map key) := by
  rw [merge, List.map_map]
  exact List.map_id _

theorem isMerged_merge (rules : List AllowRule) : IsMerged (merge rules) where
  keys := keys_merge rules ▸ strictlyIncreasing_ofList _
  permissions := by
    intro rule hrule
    rw [(mem_merge.mp hrule).2]
    exact strictlyIncreasing_ofList _
  opens := by
    intro rule hrule permission hpermission
    rw [(mem_merge.mp hrule).2] at hpermission ⊢
    simp only [mem_withOpen, mem_ofList] at hpermission ⊢
    obtain ⟨given, ⟨base, hbase, hgiven⟩, himplies⟩ := hpermission
    exact ⟨base, hbase, hgiven.trans himplies⟩

namespace IsMerged

variable {rules : List AllowRule}

theorem sublist {some : List AllowRule} (h : IsMerged rules) (hsub : some.Sublist rules) :
    IsMerged some where
  keys := h.keys.sublist (hsub.map key)
  permissions := fun rule hrule => h.permissions rule (hsub.mem hrule)
  opens := fun rule hrule => h.opens rule (hsub.mem hrule)

theorem eq_of_key_eq (h : IsMerged rules) {rule other : AllowRule} (hrule : rule ∈ rules)
    (hother : other ∈ rules) (hkey : rule.key = other.key) : rule = other :=
  Canonical.eq_of_key_eq h.keys.nodup hrule hother hkey

theorem permissionsFor_key (h : IsMerged rules) {rule : AllowRule} (hrule : rule ∈ rules) :
    permissionsFor rule.key rules = rule.permissions := by
  rw [permissionsFor, filter_key_eq_singleton h.keys.nodup hrule, List.flatMap_singleton]

end IsMerged

/-- A list in merged form is its own merger. -/
theorem merge_eq_self {rules : List AllowRule} (h : IsMerged rules) : merge rules = rules := by
  refine map_key_eq_self h.keys ?_
  intro rule hrule
  have hopen : ofList (withOpen rule.objectClass rule.permissions) = rule.permissions := by
    rw [← ofList_eq_self (h.permissions rule hrule)]
    refine ofList_congr ?_
    intro permission
    rw [ofList_eq_self (h.permissions rule hrule)]
    constructor
    · exact h.opens rule hrule permission
    · intro hmem
      exact mem_withOpen.mpr ⟨permission, hmem, Implies.refl _ _⟩
  rw [h.permissionsFor_key hrule]
  exact congrArg (ofKey rule.key) hopen

end AllowRule

end TypeEnforcement
