import Mathlib.Data.Finset.Dedup
import TypeEnforcement.Proofs.Policy.Redundancy
/-!
# What elimination leaves of a list of rules

A rule is compared with every rule of the list, even with those that are dropped themselves. That is
safe because domination is strict inclusion of sets of permissions among rules with one key: a rule
that is dropped lies below a maximal one, and maximal rules stay. So a list loses the rules that lie
strictly below another, each of them is covered by a rule that is left, and a second elimination
finds nothing more to drop.

## Main results

* `AllowRule.isDominatedBy_iff_ssubset`: the test for domination compares sets of permissions.
* `AllowRule.exists_strictCover`: a rule that is dropped is strictly covered by one that stays.
* `AllowRule.eliminateRedundant_eq_filter_and_covers`: which rules stay, and what covers the others.
-/

namespace TypeEnforcement

namespace AllowRule

variable {rule other kept : AllowRule} {rules : List AllowRule}

/-! ## Domination as inclusion -/

/-- Whether another rule with the same key has all permissions of a rule and more, where the order
and the repetition of permissions do not count. -/
def IsStrictlyCoveredBy (rule other : AllowRule) : Prop :=
  rule.key = other.key ∧ rule.permissions.toFinset ⊂ other.permissions.toFinset

instance (rule other : AllowRule) : Decidable (rule.IsStrictlyCoveredBy other) :=
  inferInstanceAs (Decidable (_ ∧ _))

theorem isCoveredBy_iff_subset :
    rule.isCoveredBy other = true ↔
      rule.key = other.key ∧ rule.permissions.toFinset ⊆ other.permissions.toFinset := by
  simp only [isCoveredBy_iff, Finset.subset_iff, List.mem_toFinset]

theorem isDominatedBy_iff_ssubset :
    rule.isDominatedBy other = true ↔ rule.IsStrictlyCoveredBy other := by
  rw [isDominatedBy_iff, isCoveredBy_iff_subset, isCoveredBy_iff_subset, IsStrictlyCoveredBy,
    Finset.ssubset_def]
  constructor
  · intro hboth
    obtain ⟨⟨hkey, hsubset⟩, hback⟩ := hboth
    exact ⟨hkey, hsubset, fun hsuperset => hback ⟨hkey.symm, hsuperset⟩⟩
  · intro hboth
    obtain ⟨hkey, hsubset, hback⟩ := hboth
    exact ⟨⟨hkey, hsubset⟩, fun hcovers => hback hcovers.2⟩

theorem IsStrictlyCoveredBy.asymm (h : rule.IsStrictlyCoveredBy other) :
    ¬ other.IsStrictlyCoveredBy rule :=
  fun h' => h.2.2 h'.2.1

theorem IsStrictlyCoveredBy.of_isCoveredBy (h : rule.IsStrictlyCoveredBy other)
    (hcovers : other.isCoveredBy kept = true) : rule.IsStrictlyCoveredBy kept := by
  obtain ⟨hkey, hsubset⟩ := isCoveredBy_iff_subset.mp hcovers
  exact ⟨h.1.trans hkey, lt_of_lt_of_le h.2 hsubset⟩

/-! ## The rules that stay -/

/-- The rules that stay are, in their order, those that no rule of the list strictly covers. -/
theorem eliminateRedundant_eq_filter (rules : List AllowRule) :
    eliminateRedundant rules
      = rules.filter fun rule => ∀ other ∈ rules, ¬ rule.IsStrictlyCoveredBy other := by
  refine List.filter_congr fun rule _ => ?_
  rw [Bool.eq_iff_iff, Bool.not_eq_true', List.any_eq_false, decide_eq_true_iff]
  simp only [isDominatedBy_iff_ssubset]

/-- A rule that is dropped is strictly covered by one that stays. -/
theorem exists_strictCover (hrule : rule ∈ rules) (hdropped : rule ∉ eliminateRedundant rules) :
    ∃ kept ∈ eliminateRedundant rules, rule.IsStrictlyCoveredBy kept := by
  obtain ⟨other, hother, hdominates⟩ := exists_dominator hrule hdropped
  -- The dominator may be dropped as well, but then something above it is left.
  obtain ⟨kept, hkept, hcovers⟩ := exists_cover hother
  exact ⟨kept, hkept, (isDominatedBy_iff_ssubset.mp hdominates).of_isCoveredBy hcovers⟩

theorem mem_accesses_eliminateRedundant {access : Access} :
    access ∈ (eliminateRedundant rules).flatMap accesses ↔ access ∈ rules.flatMap accesses := by
  simp only [List.mem_flatMap]
  constructor
  · intro hexists
    obtain ⟨rule, hrule, haccess⟩ := hexists
    exact ⟨rule, (eliminateRedundant_sublist rules).mem hrule, haccess⟩
  · intro hexists
    obtain ⟨rule, hrule, haccess⟩ := hexists
    obtain ⟨kept, hkept, hcovers⟩ := exists_cover hrule
    exact ⟨kept, hkept, mem_accesses_of_isCoveredBy hcovers haccess⟩

theorem eliminateRedundant_eliminateRedundant (rules : List AllowRule) :
    eliminateRedundant (eliminateRedundant rules) = eliminateRedundant rules := by
  conv_lhs => rw [eliminateRedundant]
  rw [List.filter_eq_self]
  intro rule hrule
  rw [Bool.not_eq_true', List.any_eq_false]
  intro other hother
  exact (mem_eliminateRedundant.mp hrule).2 other ((eliminateRedundant_sublist rules).mem hother)

/-- Of two rules at least one stays. -/
theorem mem_eliminateRedundant_pair (rule other : AllowRule) :
    rule ∈ eliminateRedundant [rule, other] ∨ other ∈ eliminateRedundant [rule, other] := by
  obtain ⟨kept, hkept, -⟩ := exists_cover (List.mem_cons_self (a := rule) (l := [other]))
  have hmem : kept ∈ [rule, other] := (eliminateRedundant_sublist _).mem hkept
  rcases List.mem_pair.mp hmem with rfl | rfl
  · exact Or.inl hkept
  · exact Or.inr hkept

/-- Elimination keeps, in their order, the rules that no rule of the list strictly covers. A rule
that is dropped is strictly covered by one that stays, so the list gives the same accesses as
before; no two rules drop each other; and elimination repeated changes nothing. -/
theorem eliminateRedundant_eq_filter_and_covers (rules : List AllowRule) :
    eliminateRedundant rules
        = rules.filter (fun rule => ∀ other ∈ rules, ¬ rule.IsStrictlyCoveredBy other)
      ∧ (∀ rule ∈ rules, rule ∉ eliminateRedundant rules →
          ∃ kept ∈ eliminateRedundant rules, rule.IsStrictlyCoveredBy kept)
      ∧ (∀ access, access ∈ (eliminateRedundant rules).flatMap accesses ↔
          access ∈ rules.flatMap accesses)
      ∧ (∀ rule other : AllowRule,
          ¬ (rule.isDominatedBy other = true ∧ other.isDominatedBy rule = true))
      ∧ (∀ rule other : AllowRule, rule ∈ eliminateRedundant [rule, other]
          ∨ other ∈ eliminateRedundant [rule, other])
      ∧ eliminateRedundant (eliminateRedundant rules) = eliminateRedundant rules := by
  refine ⟨eliminateRedundant_eq_filter rules, fun rule => exists_strictCover,
    fun access => mem_accesses_eliminateRedundant, ?_, mem_eliminateRedundant_pair,
    eliminateRedundant_eliminateRedundant rules⟩
  intro rule other hboth
  simp only [isDominatedBy_iff_ssubset] at hboth
  exact hboth.1.asymm hboth.2

/-- The rule that dominates the first is dropped as well, and the last of the key covers both. -/
theorem exists_strictCover_chain :
    let read : AllowRule := ⟨"app", "data", "file", ["read", "read"]⟩
    let rules : List AllowRule :=
      [read, .of "app" "data" "file" ["read", "write"], .of "app" "data" "dir" ["read"],
        .of "app" "data" "file" ["write", "append", "read"]]
    read ∈ rules ∧ read ∉ eliminateRedundant rules
      ∧ eliminateRedundant rules = rules.drop 2
      ∧ ∃ kept ∈ eliminateRedundant rules, read.IsStrictlyCoveredBy kept := by
  intro read rules
  have hmem : read ∈ rules := by decide +kernel
  have hdropped : read ∉ eliminateRedundant rules := by decide +kernel
  exact ⟨hmem, hdropped, by decide +kernel,
    (eliminateRedundant_eq_filter_and_covers rules).2.1 read hmem hdropped⟩

end AllowRule

end TypeEnforcement
