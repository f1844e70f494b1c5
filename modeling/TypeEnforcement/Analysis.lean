import TypeEnforcement.Conflict
import TypeEnforcement.Model
import TypeEnforcement.Rule.Validation
import TypeEnforcement.Statistics
/-!
# Analysis of a table

The model is checked first, then every rule in order; the first fault ends the analysis. A table
that passes is reported with its conflicts and its statistics.
-/

namespace TypeEnforcement

/-- What ends an analysis. -/
inductive AnalysisError where
  | model (error : ModelError)
  | rule (error : RuleError)
deriving DecidableEq, Repr

namespace AnalysisError

/-- The words for a failed analysis. -/
def message : AnalysisError → String
  | model error => error.message
  | rule error => error.message

end AnalysisError

/-- What is known of a table that passes. -/
structure Analysis where
  conflicts : List Conflict
  statistics : Statistics
deriving DecidableEq, Repr

namespace Analysis

/-- Checks a model and a table. -/
def check (extended : Bool) (model : Model) (set : RuleSet) : Except AnalysisError Unit := do
  model.check.mapError .model
  (set.rules.forM (Rule.check extended)).mapError .rule

/-- Analyses a table. -/
def run (extended : Bool) (model : Model) (set : RuleSet) : Except AnalysisError Analysis :=
  (check extended model set).map fun () =>
    { conflicts := Conflict.detect set.rules, statistics := Statistics.collect set }

end Analysis

end TypeEnforcement
