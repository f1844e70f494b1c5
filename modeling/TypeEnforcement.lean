import TypeEnforcement.Canonical.Lemmas
import TypeEnforcement.Policy.Grants
import TypeEnforcement.Policy.Order
import TypeEnforcement.Settings.Layers
import TypeEnforcement.Settings.Options
import TypeEnforcement.Text.Lemmas
import TypeEnforcement.Proofs.Policy.Merging
import TypeEnforcement.Proofs.Policy.MergedForm
import TypeEnforcement.Proofs.Policy.Meaning
import TypeEnforcement.Proofs.Policy.Composition
import TypeEnforcement.Proofs.Policy.Survival
import TypeEnforcement.Proofs.Policy.References
import TypeEnforcement.Proofs.Policy.Congruence
import TypeEnforcement.Proofs.Glob.Groups
import TypeEnforcement.Proofs.Glob.Pattern
import TypeEnforcement.Proofs.Glob.Meaning
import TypeEnforcement.Proofs.Glob.Base
import TypeEnforcement.Proofs.Transition.Cycle
import TypeEnforcement.Proofs.Rule.Reading
import TypeEnforcement.Proofs.Generation.Grants
import TypeEnforcement.Proofs.Generation.Labels
import TypeEnforcement.Proofs.Generation.References
import TypeEnforcement.Proofs.Generation.Congruence
import TypeEnforcement.Proofs.Compilation.Stages
import TypeEnforcement.Proofs.Compilation.Labels
import TypeEnforcement.Proofs.Compilation.References
import TypeEnforcement.Proofs.Compilation.RowOrder
import TypeEnforcement.Proofs.Compilation.Capabilities
import TypeEnforcement.Proofs.Transition.ShortestPath
import TypeEnforcement.Proofs.Rule.Conditions
import TypeEnforcement.Proofs.Compilation.Conditions
import TypeEnforcement.Proofs.Settings.Overrides
import TypeEnforcement.Proofs.Row.Splitting
import TypeEnforcement.Proofs.Row.Rendering
import TypeEnforcement.Proofs.Glob.Nesting
import TypeEnforcement.Proofs.Compilation.DomainTransitions
import TypeEnforcement.Proofs.Compilation.Classes
import TypeEnforcement.Proofs.Policy.Listing
import TypeEnforcement.Proofs.Compilation.Objects
import TypeEnforcement.Proofs.Glob.Subtrees
import TypeEnforcement.Proofs.Generation.Roles
import TypeEnforcement.Proofs.Compilation.Roles
import TypeEnforcement.Proofs.Policy.Counting
import TypeEnforcement.Proofs.Policy.Domination
import TypeEnforcement.Proofs.Policy.EqualMergers
import TypeEnforcement.Proofs.Policy.Pruning
import TypeEnforcement.Proofs.Conflict.Pairs
import TypeEnforcement.Proofs.Glob.Literals
import TypeEnforcement.Proofs.Conflict.Subtrees
import TypeEnforcement.Proofs.TypeName.Paths
import TypeEnforcement.Proofs.TypeName.Characters
import TypeEnforcement.Proofs.Action.Overriding
import TypeEnforcement.Proofs.Transition.Recording
import TypeEnforcement.Proofs.Rule.Origin
import TypeEnforcement.Proofs.Statistics.Sums
import TypeEnforcement.Proofs.Toml.Overlays
import TypeEnforcement.Proofs.Toml.CanonicalKeys
import TypeEnforcement.Proofs.Settings.Shapes
import TypeEnforcement.Proofs.Settings.Merging
import TypeEnforcement.Proofs.Settings.PlainLibrary
import TypeEnforcement.Proofs.Settings.Layering
