import TypeEnforcement.Proofs.Policy.Passes
/-!
# Running the optimizer twice

Runs of the optimizer compose like a join of their settings. Since no pass destroys what another
establishes, the second run finds a merged and sorted policy, and only the optional passes matter;
these commute, for elimination keeps the names that a policy refers to, and pruning touches no
rule. So the passes of two runs can be gathered into one.

## Main result

* `Optimizer.run_run`: a second run makes up for what the first has not been asked for, and removes
  nothing if it asks for no more than the first.
-/

namespace TypeEnforcement

/-! ## Optional passes -/

namespace Policy

/-- Elimination, if it is asked for. -/
def eliminateIf (wanted : Bool) (policy : Policy) : Policy :=
  if wanted then policy.eliminateRedundant else policy

/-- Pruning, if it is asked for. -/
def pruneIf (wanted : Bool) (policy : Policy) : Policy :=
  if wanted then policy.pruneTypes else policy

variable {policy : Policy}

/-! ### A pass that is made twice -/

theorem IsMerged.eliminateIf (h : policy.IsMerged) (wanted : Bool) :
    (policy.eliminateIf wanted).IsMerged := by
  cases wanted with
  | false => exact h
  | true => exact h.eliminateRedundant

theorem IsMerged.pruneIf (h : policy.IsMerged) (wanted : Bool) :
    (policy.pruneIf wanted).IsMerged := by
  cases wanted with
  | false => exact h
  | true => exact h.pruneTypes

theorem eliminateIf_eliminateIf (h : policy.IsMerged) (first second : Bool) :
    (policy.eliminateIf first).eliminateIf second = policy.eliminateIf (first || second) := by
  cases first with
  | false => rfl
  | true =>
    cases second with
    | false => rfl
    | true =>
      exact eliminateRedundant_eq_self h.eliminateRedundant
        (isIrredundant_eliminateRedundant policy)

theorem pruneIf_pruneIf (policy : Policy) (first second : Bool) :
    (policy.pruneIf first).pruneIf second = policy.pruneIf (first || second) := by
  cases first with
  | false => rfl
  | true =>
    cases second with
    | false => rfl
    | true => exact pruneTypes_eq_self (unusedTypes_pruneTypes policy)

/-! ### Passes that change places -/

theorem unusedTypes_eliminateRedundant (policy : Policy) :
    policy.eliminateRedundant.unusedTypes = policy.unusedTypes :=
  unusedTypes_congr rfl fun _ => mem_references_eliminateRedundant

/-- Pruning drops the same types and file contexts before elimination and after it. -/
theorem eliminateRedundant_pruneTypes (policy : Policy) :
    policy.pruneTypes.eliminateRedundant = policy.eliminateRedundant.pruneTypes := by
  have hused : ∀ decl : TypeDecl,
      decl.isAmong policy.eliminateRedundant.references = decl.isAmong policy.references :=
    isAmong_congr fun _ => mem_references_eliminateRedundant
  have hunused := unusedTypes_eliminateRedundant policy
  rw [pruneTypes, pruneTypes, hunused]
  simp only [hused]
  rfl

theorem eliminateIf_pruneIf (policy : Policy) (eliminates prunes : Bool) :
    (policy.pruneIf prunes).eliminateIf eliminates
      = (policy.eliminateIf eliminates).pruneIf prunes := by
  cases eliminates with
  | false => rfl
  | true =>
    cases prunes with
    | false => rfl
    | true => exact eliminateRedundant_pruneTypes policy

theorem eliminateIf_sortParts (policy : Policy) (wanted : Bool) :
    policy.sortParts.eliminateIf wanted = (policy.eliminateIf wanted).sortParts := by
  cases wanted <;> rfl

theorem pruneTypes_sortParts (policy : Policy) :
    policy.sortParts.pruneTypes = policy.pruneTypes.sortParts := by
  have hused : ∀ decl : TypeDecl,
      decl.isAmong policy.sortParts.references = decl.isAmong policy.references :=
    isAmong_congr fun _ => mem_references_sortParts
  rw [pruneTypes, pruneTypes, unusedTypes_sortParts]
  simp only [hused]
  rfl

theorem pruneIf_sortParts (policy : Policy) (wanted : Bool) :
    policy.sortParts.pruneIf wanted = (policy.pruneIf wanted).sortParts := by
  cases wanted with
  | false => rfl
  | true => exact pruneTypes_sortParts policy

theorem sortParts_sortParts (policy : Policy) : policy.sortParts.sortParts = policy.sortParts :=
  sortParts_eq_self (isSorted_sortParts policy)

end Policy

/-! ## Runs -/

namespace Optimizer

/-- The setting that asks for the passes of either of two. -/
def join (first second : Optimizer) : Optimizer where
  eliminatesRedundant := first.eliminatesRedundant || second.eliminatesRedundant
  prunesTypes := first.prunesTypes || second.prunesTypes

/-- Whether a setting asks for each pass that another asks for. -/
def Includes (first second : Optimizer) : Prop :=
  (second.eliminatesRedundant = true → first.eliminatesRedundant = true)
    ∧ (second.prunesTypes = true → first.prunesTypes = true)

instance (first second : Optimizer) : Decidable (first.Includes second) := by
  unfold Includes
  infer_instance

theorem run_eq (optimizer : Optimizer) (policy : Policy) :
    optimizer.run policy =
      (((merged policy).eliminateIf optimizer.eliminatesRedundant).pruneIf
        optimizer.prunesTypes).sortParts := rfl

theorem run_sortParts {policy : Policy} (h : policy.IsMerged) (optimizer : Optimizer) :
    optimizer.run policy.sortParts =
      ((policy.eliminateIf optimizer.eliminatesRedundant).pruneIf
        optimizer.prunesTypes).sortParts := by
  rw [run_eq, merged_eq_self h.sortParts, Policy.eliminateIf_sortParts,
    Policy.pruneIf_sortParts, Policy.sortParts_sortParts]

/-- Two runs are one run that is asked for the passes of both. -/
theorem run_run_eq_run_join (first second : Optimizer) (policy : Policy) :
    second.run (first.run policy) = (first.join second).run policy := by
  have hmerged : (merged policy).IsMerged := isMerged_merged policy
  calc second.run (first.run policy)
      = (((((merged policy).eliminateIf first.eliminatesRedundant).pruneIf
          first.prunesTypes).eliminateIf second.eliminatesRedundant).pruneIf
            second.prunesTypes).sortParts := by
        rw [run_eq first]
        exact run_sortParts ((hmerged.eliminateIf _).pruneIf _) second
    _ = (((((merged policy).eliminateIf first.eliminatesRedundant).eliminateIf
          second.eliminatesRedundant).pruneIf first.prunesTypes).pruneIf
            second.prunesTypes).sortParts := by
        rw [Policy.eliminateIf_pruneIf]
    _ = (first.join second).run policy := by
        rw [Policy.eliminateIf_eliminateIf hmerged, Policy.pruneIf_pruneIf]
        rfl

/-- What is normal for a setting is normal for one that asks for less. -/
theorem IsNormal.mono {first second : Optimizer} {policy : Policy} (h : first.IsNormal policy)
    (hincludes : first.Includes second) : second.IsNormal policy where
  merged := h.merged
  irredundant := fun heliminates => h.irredundant (hincludes.1 heliminates)
  used := fun hprunes => h.used (hincludes.2 hprunes)
  sorted := h.sorted

/-- Elimination does not change which types and file contexts are left. -/
theorem types_run_eq (eliminates prunes : Bool) (policy : Policy) :
    (run ⟨eliminates, prunes⟩ policy).types = (run ⟨false, prunes⟩ policy).types
      ∧ (run ⟨eliminates, prunes⟩ policy).fileContexts
        = (run ⟨false, prunes⟩ policy).fileContexts := by
  rw [run_eq, run_eq, ← Policy.eliminateIf_pruneIf, ← Policy.eliminateIf_pruneIf]
  cases eliminates <;> exact ⟨rfl, rfl⟩

/-- Runs of the optimizer compose like a join of their settings: a second run leaves what one run
that is asked for the passes of both leaves. In particular a run repeated changes nothing,
elimination does not change which types and file contexts are left, and a second run that is asked
for no pass that the first has not made removes nothing. -/
theorem run_run (first second : Optimizer) (policy : Policy) :
    second.run (first.run policy) = (first.join second).run policy
      ∧ first.run (first.run policy) = first.run policy
      ∧ (∀ prunes, (run ⟨true, prunes⟩ policy).types = (run ⟨false, prunes⟩ policy).types
          ∧ (run ⟨true, prunes⟩ policy).fileContexts
            = (run ⟨false, prunes⟩ policy).fileContexts)
      ∧ (first.Includes second → (second.report (first.run policy)).total = 0) := by
  refine ⟨run_run_eq_run_join first second policy, run_eq_self (isNormal_run first policy),
    fun prunes => types_run_eq true prunes policy, ?_⟩
  intro hincludes
  exact report_total_eq_zero ((isNormal_run first policy).mono hincludes)

/-- The passes of the first run leave nothing to prune. -/
theorem report_prune_run_full :
    Includes ⟨true, true⟩ ⟨false, true⟩
      ∧ (report ⟨false, true⟩ (run ⟨true, true⟩
          { moduleName := "app", version := "1.0"
            allowRules := [.of "app" "data" "file" ["write"], .of "app" "data" "file" ["read"]]
            types := [.of "idle" [] none, .of "app" [] none] })).total = 0 := by
  have hincludes : Includes ⟨true, true⟩ ⟨false, true⟩ := by decide
  exact ⟨hincludes, (run_run ⟨true, true⟩ ⟨false, true⟩ _).2.2.2 hincludes⟩

end Optimizer

end TypeEnforcement
