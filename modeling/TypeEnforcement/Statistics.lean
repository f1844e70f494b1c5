import TypeEnforcement.Canonical
import TypeEnforcement.Rule
/-!
# Statistics of a table

Counts of the rules of a table: by kind, and by subject, object and action. The maps list each
value that occurs once, in order, with the number of rules that have it.
-/

namespace TypeEnforcement

/-- The counts of a table. -/
structure Statistics where
  totalRules : Nat
  allowRules : Nat
  denyRules : Nat
  transitionRules : Nat
  conditionalRules : Nat
  roleRows : Nat
  bySubject : List (String × Nat)
  byObject : List (String × Nat)
  byAction : List (String × Nat)
  uniqueSubjects : Nat
  uniqueObjects : Nat
  uniqueActions : Nat
deriving DecidableEq, Repr

namespace Statistics

/-- Each value that occurs, with the number of times that it does. -/
def tally (values : List String) : List (String × Nat) :=
  (Canonical.ofList values).map fun value => (value, values.count value)

/-- Counts the rules and roles of a table. -/
def collect (set : RuleSet) : Statistics where
  totalRules := set.rules.length
  allowRules := set.rules.countP (·.effect? == some .allow)
  denyRules := set.rules.countP (·.effect? == some .deny)
  transitionRules := set.rules.countP (·.transition.isSome)
  conditionalRules := set.rules.countP (·.condition.isSome)
  roleRows := set.roles.length
  bySubject := tally (set.rules.map (·.subject))
  byObject := tally (set.rules.map (·.object))
  byAction := tally (set.rules.map (·.action))
  uniqueSubjects := (tally (set.rules.map (·.subject))).length
  uniqueObjects := (tally (set.rules.map (·.object))).length
  uniqueActions := (tally (set.rules.map (·.action))).length

end Statistics

end TypeEnforcement
