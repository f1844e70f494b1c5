import Mathlib.Data.Finset.Union
import TypeEnforcement.Proofs.Policy.Congruence
/-!
# When two lists of rules have one merger

Merging forgets the order of rules and how permissions are spread over them, and nothing else: it
keeps the keys, also those without a permission, and for each key the union of the permissions, with
the one to open where a file may be read, written or appended to. A list may still be merged part by
part, although the permission to open is put in for each key as a whole: the union of two parts gets
it if and only if one of the parts does (`AllowRule.openedUnion_append`).

## Main results

* `AllowRule.merge_eq_merge_iff`: mergers are equal if and only if keys and opened unions are.
* `AllowRule.merge_append_merge`: a list may be merged part by part.
-/

namespace TypeEnforcement

open Canonical

namespace AllowRule

variable {key : AccessKey} {rules others : List AllowRule} {permission : String}

/-! ## Keys and unions -/

/-- The keys of some rules. -/
def keySet (rules : List AllowRule) : Finset AccessKey :=
  (rules.map AllowRule.key).toFinset

/-- The permissions that some rules give for a key, all together. -/
def permissionUnion (key : AccessKey) (rules : List AllowRule) : Finset String :=
  (rules.filter (·.key = key)).toFinset.biUnion fun rule => rule.permissions.toFinset

/-- The permissions that some rules give for a key, with the one to open if the key is about files
and one of the permissions is to read, to write or to append. -/
def openedUnion (key : AccessKey) (rules : List AllowRule) : Finset String :=
  if ObjectClass.isFileLike key.objectClass = true
      ∧ ∃ opener ∈ ["read", "write", "append"], opener ∈ permissionUnion key rules then
    insert "open" (permissionUnion key rules)
  else permissionUnion key rules

theorem mem_keySet : key ∈ keySet rules ↔ ∃ rule ∈ rules, rule.key = key := by
  rw [keySet, List.mem_toFinset, List.mem_map]

theorem permissionUnion_eq_toFinset (key : AccessKey) (rules : List AllowRule) :
    permissionUnion key rules = (permissionsFor key rules).toFinset := by
  ext permission
  simp only [permissionUnion, mem_permissionsFor, Finset.mem_biUnion, List.mem_toFinset,
    List.mem_filter, decide_eq_true_iff, and_assoc]

theorem openedUnion_eq_toFinset (key : AccessKey) (rules : List AllowRule) :
    openedUnion key rules = (withOpen key.objectClass (permissionsFor key rules)).toFinset := by
  have hopens : (ObjectClass.isFileLike key.objectClass = true
        ∧ ∃ opener ∈ ["read", "write", "append"], opener ∈ permissionUnion key rules) ↔
      (ObjectClass.isFileLike key.objectClass
        && (permissionsFor key rules).any openers.contains) = true := by
    rw [permissionUnion_eq_toFinset, Bool.and_eq_true, List.any_eq_true]
    simp only [List.mem_toFinset, List.contains_iff_mem, openers, and_comm]
  rw [openedUnion, if_congr hopens rfl rfl, permissionUnion_eq_toFinset, withOpen,
    apply_ite List.toFinset, List.toFinset_cons, openPermission]

theorem mem_openedUnion :
    permission ∈ openedUnion key rules ↔
      ∃ given ∈ permissionsFor key rules, Implies key.objectClass given permission := by
  rw [openedUnion_eq_toFinset, List.mem_toFinset, mem_withOpen]

/-! ## What merging keeps -/

theorem keySet_merge (rules : List AllowRule) : keySet (merge rules) = keySet rules := by
  ext key
  rw [keySet, keySet, List.mem_toFinset, List.mem_toFinset, keys_merge, mem_ofList]

/-- To open is none of the permissions that let it be put in, so nothing is put in twice. -/
theorem openedUnion_merge (key : AccessKey) (rules : List AllowRule) :
    openedUnion key (merge rules) = openedUnion key rules := by
  ext permission
  simp only [mem_openedUnion, mem_permissionsFor_merge, mem_withOpen]
  constructor
  · intro hexists
    obtain ⟨between, ⟨given, hgiven, hfirst⟩, hsecond⟩ := hexists
    exact ⟨given, hgiven, hfirst.trans hsecond⟩
  · intro hexists
    obtain ⟨given, hgiven, himplies⟩ := hexists
    exact ⟨given, ⟨given, hgiven, Implies.refl _ _⟩, himplies⟩

theorem keySet_append (rules others : List AllowRule) :
    keySet (rules ++ others) = keySet rules ∪ keySet others := by
  rw [keySet, List.map_append, List.toFinset_append, keySet, keySet]

/-- The union of two parts lets files be opened if one of the parts does. -/
theorem openedUnion_append (key : AccessKey) (rules others : List AllowRule) :
    openedUnion key (rules ++ others) = openedUnion key rules ∪ openedUnion key others := by
  ext permission
  have hgiven : permissionsFor key (rules ++ others)
      = permissionsFor key rules ++ permissionsFor key others := by
    rw [permissionsFor, List.filter_append, List.flatMap_append, permissionsFor, permissionsFor]
  simp only [mem_openedUnion, hgiven, List.mem_append, or_and_right, exists_or, Finset.mem_union]

/-! ## Equal mergers -/

/-- Mergers are equal if and only if the lists have the same keys, and for each key the same union
of permissions, with the one to open where it is implied. -/
theorem merge_eq_iff :
    merge rules = merge others ↔
      keySet rules = keySet others ∧ ∀ key, openedUnion key rules = openedUnion key others := by
  constructor
  · intro h
    refine ⟨?_, fun key => ?_⟩
    · rw [← keySet_merge rules, h, keySet_merge]
    · rw [← openedUnion_merge key rules, h, openedUnion_merge]
  · intro hboth
    obtain ⟨hkeys, hunions⟩ := hboth
    refine eq_of_mem_iff_of_key (isMerged_merge rules).keys (isMerged_merge others).keys ?_
    intro rule
    have hkey : (∃ other ∈ rules, other.key = rule.key) ↔
        ∃ other ∈ others, other.key = rule.key := by
      rw [← mem_keySet, hkeys, mem_keySet]
    have hpermissions : ofList (withOpen rule.objectClass (permissionsFor rule.key rules))
        = ofList (withOpen rule.objectClass (permissionsFor rule.key others)) := by
      refine ofList_congr fun permission => ?_
      have hunion := hunions rule.key
      rw [openedUnion_eq_toFinset, openedUnion_eq_toFinset] at hunion
      rw [← List.mem_toFinset, ← List.mem_toFinset]
      exact hunion ▸ Iff.rfl
    rw [mem_merge, mem_merge, hkey, hpermissions]

/-- A list may be merged part by part. -/
theorem merge_append_merge (rules others : List AllowRule) :
    merge (merge rules ++ merge others) = merge (rules ++ others) := by
  refine merge_eq_iff.mpr ⟨?_, fun key => ?_⟩
  · rw [keySet_append, keySet_merge, keySet_merge, keySet_append]
  · rw [openedUnion_append, openedUnion_merge, openedUnion_merge, openedUnion_append]

/-- Merging is a canonical form: two lists have the same merger if and only if they have the same
keys and for each key the same union of permissions, with the one to open where it is implied. So
neither order nor repetition counts, and a list may be merged part by part. -/
theorem merge_eq_merge_iff (rules others : List AllowRule) :
    (merge rules = merge others ↔
        keySet rules = keySet others ∧ ∀ key, openedUnion key rules = openedUnion key others)
      ∧ (rules.toFinset = others.toFinset → merge rules = merge others)
      ∧ merge (rules ++ others) = merge (merge rules ++ merge others) := by
  refine ⟨merge_eq_iff, ?_, (merge_append_merge rules others).symm⟩
  intro hsame
  refine merge_congr fun rule => ?_
  rw [← List.mem_toFinset, hsame, List.mem_toFinset]

/-- A rule that stands twice counts once, and one without permissions counts for its key. -/
theorem merge_eq_merge_repeatedRule :
    let write : AllowRule := .of "app" "data" "file" ["write"]
    let read : AllowRule := .of "app" "data" "file" ["read"]
    let idle : AllowRule := .of "app" "data" "dir" []
    [write, read, idle].toFinset = [idle, read, write, read].toFinset
      ∧ merge [write, read, idle] = merge [idle, read, write, read]
      ∧ merge [write, read, idle]
        = [.of "app" "data" "dir" [], .of "app" "data" "file" ["open", "read", "write"]] := by
  intro write read idle
  have hsame : [write, read, idle].toFinset = [idle, read, write, read].toFinset := by
    decide +kernel
  exact ⟨hsame, (merge_eq_merge_iff _ _).2.1 hsame, by decide +kernel⟩

end AllowRule

end TypeEnforcement
