import Mathlib.Algebra.BigOperators.Group.List.Lemmas
import Mathlib.Algebra.Ring.Nat
import Mathlib.Data.Finset.Card
import Mathlib.Data.Finset.Dedup
import TypeEnforcement.Canonical.Lemmas
import TypeEnforcement.Proofs.Rule.Reading
import TypeEnforcement.Statistics
/-!
# Sums of statistics

Each map of the statistics distributes the rules of a table among the values that occur in them
(`Statistics.Distributes`), so its counts are positive and sum up to the number of rules. The kinds
of rules share them out, too, but for the rules with neither an effect nor a change of type
(`Statistics.countP_kinds`), and none of those passes.

Statistics of two tables add up to those of the tables together (`Statistics.collect_append`). They
depend on how often each rule and role stands in a table and not on where
(`Statistics.collect_perm`).

## Main result

* `Statistics.reconciles_collect`: how the counts of a table fit together.
-/

namespace TypeEnforcement.Statistics

open Canonical (ofList StrictlyIncreasing)

variable {value : String} {values others : List String} {counts : List (String × Nat)}

/-! ## Maps of counts -/

/-- A map of counts distributes a total among some values: it has a positive count for each of them
and for nothing else. -/
structure Distributes (counts : List (String × Nat)) (total : Nat) (values : List String) :
    Prop where
  keys_increasing : StrictlyIncreasing (counts.map (·.1))
  mem_keys : ∀ value, value ∈ counts.map (·.1) ↔ value ∈ values
  pos : ∀ entry ∈ counts, 0 < entry.2
  sum : (counts.map (·.2)).sum = total

theorem map_fst_tally (values : List String) : (tally values).map (·.1) = ofList values := by
  rw [tally, List.map_map]
  exact List.map_id _

theorem distributes_tally (values : List String) :
    Distributes (tally values) values.length values where
  keys_increasing := by
    rw [map_fst_tally]
    exact Canonical.strictlyIncreasing_ofList values
  mem_keys := fun value => by rw [map_fst_tally, Canonical.mem_ofList]
  pos := by
    intro entry hentry
    obtain ⟨value, hvalue, rfl⟩ := List.mem_map.mp hentry
    exact List.count_pos_iff.mpr (Canonical.mem_ofList.mp hvalue)
  sum := by
    have hperm : (ofList values).Perm values.dedup := by
      rw [List.perm_ext_iff_of_nodup (Canonical.strictlyIncreasing_ofList values).nodup
        values.nodup_dedup]
      exact fun value => by rw [Canonical.mem_ofList, List.mem_dedup]
    rw [tally, List.map_map]
    calc ((ofList values).map fun value => values.count value).sum
        = (values.dedup.map fun value => values.count value).sum := (hperm.map _).sum_eq
      _ = values.length := List.sum_map_count_dedup_eq_length values

/-- The number of different values. -/
theorem length_tally (values : List String) : (tally values).length = values.toFinset.card := by
  have hkeys : (tally values).length = (ofList values).length := List.length_map _
  have hsame : (ofList values).toFinset = values.toFinset := by
    ext value
    rw [List.mem_toFinset, List.mem_toFinset, Canonical.mem_ofList]
  rw [hkeys, ← hsame,
    List.toFinset_card_of_nodup (Canonical.strictlyIncreasing_ofList values).nodup]

/-! ### Sums of maps -/

/-- The count of a value in a map; what is not in the map is not counted. -/
def countIn (counts : List (String × Nat)) (value : String) : Nat :=
  (counts.lookup value).getD 0

/-- The sum of two maps, value by value. -/
def addCounts (counts others : List (String × Nat)) : List (String × Nat) :=
  (ofList (counts.map (·.1) ++ others.map (·.1))).map fun value =>
    (value, countIn counts value + countIn others value)

theorem lookup_map_pair (f : String → Nat) (keys : List String) :
    (keys.map fun key => (key, f key)).lookup value
      = if value ∈ keys then some (f value) else none := by
  induction keys with
  | nil => rfl
  | cons key keys ih =>
    rw [List.map_cons, List.lookup_cons, ih]
    by_cases hkey : value = key
    · simp [hkey]
    · simp [hkey, beq_eq_false_iff_ne.mpr hkey]

theorem countIn_tally : countIn (tally values) value = values.count value := by
  rw [countIn, tally, lookup_map_pair]
  by_cases hmem : value ∈ values
  · rw [if_pos (Canonical.mem_ofList.mpr hmem), Option.getD_some]
  · rw [if_neg (Canonical.mem_ofList.not.mpr hmem), Option.getD_none, List.count_eq_zero.mpr hmem]

theorem tally_append (values others : List String) :
    tally (values ++ others) = addCounts (tally values) (tally others) := by
  have hkeys : ofList (values ++ others)
      = ofList ((tally values).map (·.1) ++ (tally others).map (·.1)) := by
    apply Canonical.ofList_congr
    intro value
    simp only [List.mem_append, (distributes_tally _).mem_keys]
  rw [tally, addCounts, ← hkeys]
  refine List.map_congr_left fun value _ => ?_
  rw [countIn_tally, countIn_tally, List.count_append]

theorem tally_perm (h : values.Perm others) : tally values = tally others := by
  rw [tally, tally, Canonical.ofList_congr fun value => h.mem_iff]
  exact List.map_congr_left fun value _ => by rw [h.count_eq]

/-! ## Kinds of rules -/

/-- Every rule allows, denies, changes a type or has no effect that is known. -/
theorem countP_kinds (rules : List Rule) :
    rules.countP (·.effect? == some .allow) + rules.countP (·.effect? == some .deny)
        + rules.countP (·.transition.isSome)
        + rules.countP (fun rule => rule.transition.isNone && rule.effect?.isNone)
      = rules.length := by
  induction rules with
  | nil => rfl
  | cons rule rules ih =>
    simp only [List.countP_cons, List.length_cons]
    have hone : (if rule.effect? == some .allow then 1 else 0)
        + (if rule.effect? == some .deny then 1 else 0)
        + (if rule.transition.isSome then 1 else 0)
        + (if rule.transition.isNone && rule.effect?.isNone then 1 else 0) = 1 := by
      rw [Rule.effect?]
      cases rule.transition with
      | some clause => rfl
      | none =>
        cases Effect.ofWord? rule.effect with
        | none => rfl
        | some effect => cases effect <;> rfl
    omega

/-- A rule that passes has an effect or changes a type. -/
theorem countP_faulty_of_check {rules : List Rule} {extended : Bool}
    (h : ∀ rule ∈ rules, rule.check extended = .ok ()) :
    rules.countP (fun rule => rule.transition.isNone && rule.effect?.isNone) = 0 := by
  rw [List.countP_eq_zero]
  intro rule hrule hfaulty
  obtain ⟨hchange, hnone⟩ := (Bool.and_eq_true _ _).mp hfaulty
  have heffect := (Rule.check_eq_ok_iff.mp (h rule hrule)).2.1
  rw [Option.isNone_iff_eq_none] at hchange hnone
  rw [hchange, hnone] at heffect
  exact absurd heffect (by simp)

/-! ## Tables -/

/-- How the counts of a table fit together. -/
structure Reconciles (statistics : Statistics) (set : RuleSet) : Prop where
  bySubject : Distributes statistics.bySubject statistics.totalRules (set.rules.map (·.subject))
  byObject : Distributes statistics.byObject statistics.totalRules (set.rules.map (·.object))
  byAction : Distributes statistics.byAction statistics.totalRules (set.rules.map (·.action))
  uniqueSubjects : statistics.uniqueSubjects = (set.rules.map (·.subject)).toFinset.card
  uniqueObjects : statistics.uniqueObjects = (set.rules.map (·.object)).toFinset.card
  uniqueActions : statistics.uniqueActions = (set.rules.map (·.action)).toFinset.card
  kinds : ∀ extended, (∀ rule ∈ set.rules, rule.check extended = .ok ()) →
    statistics.allowRules + statistics.denyRules + statistics.transitionRules
      = statistics.totalRules

/-- The sum of statistics, field by field and value by value. A value that is in both counts once
among the different values. -/
def add (first second : Statistics) : Statistics where
  totalRules := first.totalRules + second.totalRules
  allowRules := first.allowRules + second.allowRules
  denyRules := first.denyRules + second.denyRules
  transitionRules := first.transitionRules + second.transitionRules
  conditionalRules := first.conditionalRules + second.conditionalRules
  roleRows := first.roleRows + second.roleRows
  bySubject := addCounts first.bySubject second.bySubject
  byObject := addCounts first.byObject second.byObject
  byAction := addCounts first.byAction second.byAction
  uniqueSubjects := (first.bySubject.map (·.1) ++ second.bySubject.map (·.1)).toFinset.card
  uniqueObjects := (first.byObject.map (·.1) ++ second.byObject.map (·.1)).toFinset.card
  uniqueActions := (first.byAction.map (·.1) ++ second.byAction.map (·.1)).toFinset.card

theorem length_tally_append (values others : List String) :
    (tally (values ++ others)).length
      = ((tally values).map (·.1) ++ (tally others).map (·.1)).toFinset.card := by
  rw [length_tally, map_fst_tally, map_fst_tally]
  congr 1
  ext value
  simp only [List.mem_toFinset, List.mem_append, Canonical.mem_ofList]

variable {set other : RuleSet}

/-- The statistics of two tables, one after the other, are the sum of theirs. -/
theorem collect_append (set other : RuleSet) :
    collect { rules := set.rules ++ other.rules, roles := set.roles ++ other.roles }
      = (collect set).add (collect other) := by
  -- the different values are counted before the maps are split, which hides the tables' lengths
  simp only [collect, add, List.length_append, List.countP_append, List.map_append,
    length_tally_append]
  simp only [tally_append]

/-- The order of rules and roles does not count. -/
theorem collect_perm (hrules : set.rules.Perm other.rules) (hroles : set.roles.Perm other.roles) :
    collect set = collect other := by
  have hvalues : ∀ part : Rule → String,
      tally (set.rules.map part) = tally (other.rules.map part) :=
    fun part => tally_perm (hrules.map part)
  simp only [collect, hrules.length_eq, hroles.length_eq, hrules.countP_eq, hvalues]

/-- The counts of every table fit together, those of two tables add up, and the order of rules and
roles does not count. -/
theorem reconciles_collect (set : RuleSet) :
    (collect set).Reconciles set
      ∧ (∀ other : RuleSet,
          collect { rules := set.rules ++ other.rules, roles := set.roles ++ other.roles }
            = (collect set).add (collect other))
      ∧ ∀ other : RuleSet, set.rules.Perm other.rules → set.roles.Perm other.roles →
          collect set = collect other := by
  refine ⟨?_, collect_append set, fun other => collect_perm⟩
  have hdistributes : ∀ part : Rule → String,
      Distributes (tally (set.rules.map part)) set.rules.length (set.rules.map part) := by
    intro part
    have hdistributes := distributes_tally (set.rules.map part)
    rwa [List.length_map] at hdistributes
  refine ⟨hdistributes _, hdistributes _, hdistributes _, length_tally _, length_tally _,
    length_tally _, ?_⟩
  intro extended hcheck
  have hkinds := countP_kinds set.rules
  rwa [countP_faulty_of_check hcheck, Nat.add_zero] at hkinds

end TypeEnforcement.Statistics
