import TypeEnforcement.Canonical.Lemmas
import TypeEnforcement.Compilation
import TypeEnforcement.Proofs.Rule.Reading
/-!
# The stages of a compilation

A compilation succeeds when each of its stages does: the overrides of actions are accepted, every
row is read, the model passes and every rule passes (`exists_compile_iff`). Overrides that are
accepted leave each action some permission (`ActionTable.IsEffective`).

## Main results

* `exists_compile_iff`: when a compilation succeeds, and with what.
* `Options.isEffective_of_generator`: each action stands for some permission.
-/

namespace TypeEnforcement

/-! ## Actions -/

namespace ActionTable

variable {table : ActionTable}

/-- Whether each action of a table stands for some permission. -/
def IsEffective (table : ActionTable) : Prop :=
  ∀ action meaning, (action, meaning) ∈ table.overrides → meaning.permissions ≠ []

theorem mem_of_lookup_eq_some {entries : List (String × ActionMeaning)} {action : String}
    {meaning : ActionMeaning} (h : entries.lookup action = some meaning) :
    (action, meaning) ∈ entries := by
  obtain ⟨before, after, rfl, -⟩ := List.lookup_eq_some_iff.mp h
  simp

theorem permissions_ne_nil_of_mem_defaults :
    ∀ entry ∈ Action.defaults, entry.2.permissions ≠ [] := by
  simp [Action.defaults]

theorem IsEffective.known (h : table.IsEffective) {action : String} {meaning : ActionMeaning}
    (hknown : table.known? action = some meaning) : meaning.permissions ≠ [] := by
  rw [known?, Option.or_eq_some_iff] at hknown
  rcases hknown with hoverride | ⟨-, hdefault⟩
  · exact h action meaning (mem_of_lookup_eq_some hoverride)
  · exact permissions_ne_nil_of_mem_defaults _ (mem_of_lookup_eq_some hdefault)

theorem onDirectory_ne_nil (permission : String) : Action.onDirectory permission ≠ [] := by
  unfold Action.onDirectory
  split <;> exact List.cons_ne_nil _ _

/-- Whatever is granted on files leaves something to grant on directories. -/
theorem onDirectory_flatMap_ne_nil {permissions : List String} (h : permissions ≠ []) :
    permissions.flatMap Action.onDirectory ≠ [] := by
  obtain ⟨permission, hpermission⟩ := List.exists_mem_of_ne_nil _ h
  obtain ⟨spelled, hspelled⟩ := List.exists_mem_of_ne_nil _ (onDirectory_ne_nil permission)
  exact List.ne_nil_of_mem (List.mem_flatMap.mpr ⟨permission, hpermission, hspelled⟩)

/-- An action keeps a permission under any class. -/
theorem IsEffective.meaning (h : table.IsEffective) (action : String)
    (objectClass : Option String) : (table.meaning action objectClass).permissions ≠ [] := by
  rw [ActionTable.meaning]
  split
  · exact List.cons_ne_nil _ _
  · next base hknown _ => exact h.known hknown
  · next base asked hknown _ =>
    have hbase := h.known hknown
    split
    · exact hbase
    split
    · exact Canonical.distinct_ne_nil (onDirectory_flatMap_ne_nil hbase)
    · exact hbase

/-- An override is refused and leaves the table, or comes before the earlier ones. -/
theorem override_cases (table : ActionTable) (action objectClass : String)
    (permissions : List String) :
    (∃ fault, meaningOf objectClass permissions = .error fault
        ∧ table.override action objectClass permissions = (.error fault, table))
      ∨ ∃ meaning, meaningOf objectClass permissions = .ok meaning
        ∧ table.override action objectClass permissions
          = (.ok (), { overrides := (action, meaning) :: table.overrides }) := by
  rw [override]
  cases meaningOf objectClass permissions with
  | error fault => exact Or.inl ⟨fault, rfl, rfl⟩
  | ok meaning => exact Or.inr ⟨meaning, rfl, rfl⟩

/-- A refused override changes nothing. -/
theorem override_of_refused {action objectClass : String} {permissions : List String}
    {fault : OverrideFault}
    (h : (table.override action objectClass permissions).1 = .error fault) :
    (table.override action objectClass permissions).2 = table := by
  rcases override_cases table action objectClass permissions with ⟨_, -, heq⟩ | ⟨_, -, heq⟩
  · rw [heq]
  · rw [heq] at h
    cases h

theorem permissions_ne_nil_of_meaningOf {objectClass : String} {permissions : List String}
    {meaning : ActionMeaning} (h : meaningOf objectClass permissions = .ok meaning) :
    meaning.permissions ≠ [] := by
  rw [meaningOf] at h
  split at h
  · cases h
  split at h
  · cases h
  · next hkept =>
    cases h
    exact hkept

theorem IsEffective.override (h : table.IsEffective) (action objectClass : String)
    (permissions : List String) :
    (table.override action objectClass permissions).2.IsEffective := by
  rcases override_cases table action objectClass permissions
    with ⟨_, -, heq⟩ | ⟨meaning, hmeaning, heq⟩
  · rwa [heq]
  · rw [heq]
    intro other found hmem
    rcases List.mem_cons.mp hmem with hsame | hearlier
    · cases hsame
      exact permissions_ne_nil_of_meaningOf hmeaning
    · exact h other found hearlier

theorem overrideOrFail_eq_ok_iff {entry : String × ActionMeaning} {after : ActionTable} :
    table.overrideOrFail entry = .ok after ↔
      (table.override entry.1 entry.2.objectClass entry.2.permissions) = (.ok (), after) := by
  rw [overrideOrFail]
  rcases override_cases table entry.1 entry.2.objectClass entry.2.permissions
    with ⟨_, -, heq⟩ | ⟨_, -, heq⟩ <;> simp [heq, Except.mapError, Except.map]

theorem IsEffective.overrideAll {after : ActionTable} {overrides : List (String × ActionMeaning)}
    (h : table.IsEffective) (hafter : table.overrideAll overrides = .ok after) :
    after.IsEffective := by
  induction overrides generalizing table with
  | nil =>
    cases hafter
    exact h
  | cons entry overrides ih =>
    rw [ActionTable.overrideAll, List.foldlM_cons, bind_eq_ok_iff] at hafter
    obtain ⟨next, hnext, hrest⟩ := hafter
    have heffective := h.override entry.1 entry.2.objectClass entry.2.permissions
    rw [overrideOrFail_eq_ok_iff.mp hnext] at heffective
    exact ih heffective hrest

end ActionTable

namespace Options

variable {options : Options} {generator : Generator}

theorem isEffective_of_generator (h : options.generator = .ok generator) :
    generator.actions.IsEffective := by
  obtain ⟨actions, hactions, rfl⟩ := map_eq_ok_iff.mp h
  have hstandard : ActionTable.standard.IsEffective :=
    fun _ _ hmem => absurd hmem List.not_mem_nil
  exact hstandard.overrideAll hactions

theorem labelsFiles_of_generator (h : options.generator = .ok generator) :
    generator.labelsFiles = options.labelsFiles := by
  obtain ⟨actions, -, rfl⟩ := map_eq_ok_iff.mp h
  rfl

end Options

/-! ## Compilations -/

variable {options : Options} {model : Model} {rows : List Row} {set : RuleSet} {result : Compiled}

theorem Analysis.check_eq_ok_iff {extended : Bool} :
    check extended model set = .ok () ↔
      model.check = .ok () ∧ ∀ rule ∈ set.rules, rule.check extended = .ok () := by
  rw [check, check_bind_eq_ok_iff, mapError_eq_ok_iff, mapError_eq_ok_iff, forM_eq_ok_iff]

/-- The policy of a table, in normal form if the options ask for it. -/
def Options.policyOf (options : Options) (generator : Generator) (set : RuleSet) : Policy :=
  (options.optimizer?.map (·.run (generator.generate set))).getD (generator.generate set)

/-- A compilation succeeds when each of its stages does, with the policy of its table. -/
theorem exists_compile_iff {policy : Policy} :
    (∃ result, compile options model rows = .ok result ∧ result.policy = policy) ↔
      ∃ generator set, options.generator = .ok generator ∧ RuleSet.ofRows rows = .ok set
        ∧ (model.check = .ok () ∧ ∀ rule ∈ set.rules, rule.check options.extendedGlobs = .ok ())
        ∧ options.policyOf generator set = policy := by
  simp only [compile, bind_eq_ok_iff, mapError_eq_ok_iff, Analysis.run, map_eq_ok_iff,
    ← Analysis.check_eq_ok_iff]
  constructor
  · intro hexists
    obtain ⟨_, ⟨generator, hgenerator, set, hset, _, ⟨_, hcheck, rfl⟩, hresult⟩, rfl⟩ := hexists
    cases hresult
    exact ⟨generator, set, hgenerator, hset, hcheck, rfl⟩
  · intro hexists
    obtain ⟨generator, set, hgenerator, hset, hcheck, rfl⟩ := hexists
    exact ⟨_, ⟨generator, hgenerator, set, hset, _, ⟨(), hcheck, rfl⟩, rfl⟩, rfl⟩

end TypeEnforcement
