import TypeEnforcement.Analysis
import TypeEnforcement.Generation
import TypeEnforcement.Policy.NormalForm
import TypeEnforcement.Rule.Decoding
/-!
# Compilation

A table of rows becomes a policy in four steps: its rows are read, the table is checked, a policy
is generated from it, and the policy is brought into normal form if that is asked for. The
overrides of actions are looked at first; the first fault of all ends the compilation. Conflicts
between rules and loops of domain transitions are advice that comes with the result.
-/

namespace TypeEnforcement

/-- How a table is compiled. -/
structure Options where
  moduleName : String := "local"
  version : String := "1.0.0"
  extendedGlobs : Bool := false
  infersTransitions : Bool := true
  labelsFiles : Bool := true
  optimizes : Bool := true
  eliminatesRedundant : Bool := true
  prunesTypes : Bool := true
  /-- The meanings given to actions, by action in order. -/
  actionOverrides : List (String × ActionMeaning) := []
  /-- The kinds given to paths, by path in order. -/
  fileKindOverrides : List (String × FileKind) := []
deriving DecidableEq, Repr

/-! ## Errors and advice -/

/-- What is wrong with what a generator is given. -/
inductive GenerationError where
  /-- There is no table. -/
  | missingTable
  /-- An override of an action is refused. -/
  | badOverride (action : String) (fault : OverrideFault)
deriving DecidableEq, Repr

namespace GenerationError

/-- The words for a failed generation. -/
def message : GenerationError → String
  | missingTable => "no decoded rules supplied to the generator"
  | badOverride action fault =>
    "action override " ++ Text.quote action ++ ": " ++ fault.text

end GenerationError

/-- What ends a compilation. -/
inductive CompileError where
  | row (error : RowError)
  | analysis (error : AnalysisError)
  | generation (error : GenerationError)
deriving DecidableEq, Repr

namespace CompileError

/-- The words for a failed compilation. -/
def message : CompileError → String
  | row error => "decode failed: " ++ error.message
  | analysis error => "analysis failed: " ++ error.message
  | generation error => "generation failed: " ++ error.message

end CompileError

/-- Advice that comes with a result. -/
inductive Advice where
  | conflict (conflict : Conflict)
  | transitionLoop (cycle : List String)
deriving DecidableEq, Repr

/-! ## Compilation -/

namespace ActionTable

/-- Adds an override to a table; a refused one is an error. -/
def overrideOrFail (table : ActionTable) (entry : String × ActionMeaning) :
    Except GenerationError ActionTable :=
  let (outcome, after) := table.override entry.1 entry.2.objectClass entry.2.permissions
  (outcome.mapError (.badOverride entry.1)).map fun () => after

/-- Adds overrides to a table, one after the other. -/
def overrideAll (table : ActionTable) (overrides : List (String × ActionMeaning)) :
    Except GenerationError ActionTable :=
  overrides.foldlM overrideOrFail table

end ActionTable

namespace FileKindTable

/-- The table of a list of kinds, the last of a path counting. -/
def ofList (entries : List (String × FileKind)) : FileKindTable :=
  entries.foldl (fun table (path, kind) => table.insert path kind) empty

end FileKindTable

namespace Generator

/-- The policy of a table, if there is one. -/
def generateFrom (generator : Generator) (set : Option RuleSet) : Except GenerationError Policy :=
  match set with
  | some set => .ok (generator.generate set)
  | none => .error .missingTable

/-- What to know about a generated policy. -/
def advice (policy : Policy) : List Advice :=
  (transitionLoop? policy).toList.map .transitionLoop

end Generator

namespace Analysis

/-- What to know about a table that passes. -/
def advice (analysis : Analysis) : List Advice :=
  analysis.conflicts.map .conflict

end Analysis

namespace Options

/-- The generator of some options. -/
def generator (options : Options) : Except GenerationError Generator :=
  (ActionTable.standard.overrideAll options.actionOverrides).map fun actions =>
    { moduleName := options.moduleName
      version := options.version
      actions
      fileKinds := .ofList options.fileKindOverrides
      infersTransitions := options.infersTransitions
      labelsFiles := options.labelsFiles }

/-- The optimizer of some options, if they ask for one. -/
def optimizer? (options : Options) : Option Optimizer :=
  if options.optimizes then
    some { eliminatesRedundant := options.eliminatesRedundant, prunesTypes := options.prunesTypes }
  else none

end Options

/-- The result of a compilation. -/
structure Compiled where
  policy : Policy
  analysis : Analysis
  /-- What the optimizer removed, if there was one. -/
  report : Option Report
  advice : List Advice
deriving DecidableEq, Repr

namespace Compiled

/-- What comes of a table that passes. -/
def of (generator : Generator) (optimizer : Option Optimizer) (set : RuleSet)
    (analysis : Analysis) : Compiled :=
  let generated := generator.generate set
  { policy := (optimizer.map (·.run generated)).getD generated
    analysis
    report := optimizer.map (·.report generated)
    advice := analysis.advice ++ Generator.advice generated }

end Compiled

/-- Compiles a table against a model. -/
def compile (options : Options) (model : Model) (rows : List Row) : Except CompileError Compiled :=
  do
    let generator ← options.generator.mapError .generation
    let set ← (RuleSet.ofRows rows).mapError .row
    let analysis ← (Analysis.run options.extendedGlobs model set).mapError .analysis
    return .of generator options.optimizer? set analysis

end TypeEnforcement
