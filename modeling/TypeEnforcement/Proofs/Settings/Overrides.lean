import TypeEnforcement.Proofs.Compilation.Stages
import TypeEnforcement.Proofs.Text.Trimming
import TypeEnforcement.Settings.Options
/-!
# Overrides of actions that are refused

The meaning of an action is looked at twice: when settings are checked, and when the table of
actions is made. The two checks do not agree. Both refuse a blank class, but the first is content
with any list of permissions that is not empty, and the second leaves out blank permissions and
needs one that remains. So settings may pass and give options without a generator
(`noPermissions_blankPermission`).

This is the one way for them to do so: a generator fails at the first override that has a fault
(`Options.generator_eq_error_iff`), and the settings rule out all faults but a list of blank
permissions.

## Main result

* `Options.exists_generator_of_ofSettings_iff`: which settings that pass have a generator.
-/

namespace TypeEnforcement

/-! ## Faults of meanings -/

namespace ActionMeaning

/-- Why a table of actions refuses a meaning: its class is blank, or all its permissions are. -/
def fault? (meaning : ActionMeaning) : Option OverrideFault :=
  if Text.allBlank meaning.objectClass then some .emptyClass
  else if meaning.permissions.all Text.allBlank then some .noPermissions
  else none

variable {meaning : ActionMeaning}

theorem fault?_eq_none_iff :
    meaning.fault? = none ↔
      Text.allBlank meaning.objectClass = false
        ∧ ∃ permission ∈ meaning.permissions, Text.allBlank permission = false := by
  have hsome : (∃ permission ∈ meaning.permissions, Text.allBlank permission = false) ↔
      meaning.permissions.all Text.allBlank = false := by
    simp only [List.all_eq_false, Bool.not_eq_true]
  rw [hsome, fault?]
  by_cases hclass : Text.allBlank meaning.objectClass = true
  · simp [hclass]
  · by_cases hpermissions : meaning.permissions.all Text.allBlank = true <;>
      simp [hclass, hpermissions]

/-- A meaning whose class is not blank can have one fault only. -/
theorem eq_noPermissions_of_fault? {fault : OverrideFault}
    (hclass : Text.allBlank meaning.objectClass = false) (h : meaning.fault? = some fault) :
    fault = .noPermissions ∧ ∀ permission ∈ meaning.permissions,
      Text.allBlank permission = true := by
  rw [fault?, if_neg (Bool.eq_false_iff.mp hclass)] at h
  split at h
  · next hall => exact ⟨(Option.some.inj h).symm, List.all_eq_true.mp hall⟩
  · cases h

end ActionMeaning

/-! ## Tables of actions -/

namespace ActionTable

variable {table : ActionTable} {action : String} {meaning : ActionMeaning}
  {overrides : List (String × ActionMeaning)} {error : GenerationError}

/-- No permission is kept if all are blank. -/
theorem kept_eq_nil_iff {permissions : List String} :
    Canonical.distinct ((permissions.map Text.trim).filter (· ≠ "")) = [] ↔
      permissions.all Text.allBlank = true := by
  have hdistinct : ∀ kept : List String, Canonical.distinct kept = [] ↔ kept = [] := by
    intro kept
    constructor
    · exact fun hnil => not_imp_not.mp Canonical.distinct_ne_nil hnil
    · intro hnil
      rw [hnil]
      rfl
  rw [hdistinct, List.filter_eq_nil_iff, List.forall_mem_map, List.all_eq_true]
  refine forall₂_congr fun permission _ => ?_
  rw [decide_eq_true_iff, not_not, Text.trim_eq_empty_iff]

theorem meaningOf_eq_error_iff {fault : OverrideFault} :
    meaningOf meaning.objectClass meaning.permissions = .error fault ↔
      meaning.fault? = some fault := by
  rw [meaningOf, ActionMeaning.fault?]
  simp only [Text.trim_eq_empty_iff, kept_eq_nil_iff]
  split
  · rw [Except.error.injEq, Option.some.injEq]
  split
  · rw [Except.error.injEq, Option.some.injEq]
  · simp only [reduceCtorEq]

/-- What ends the making of a table at an override. -/
def overrideError? (entry : String × ActionMeaning) : Option GenerationError :=
  entry.2.fault?.map (.badOverride entry.1)

/-- The first faulty override ends the making of a table. -/
theorem overrideAll_eq_error_iff :
    table.overrideAll overrides = .error error ↔
      overrides.findSome? overrideError? = some error := by
  induction overrides generalizing table with
  | nil => constructor <;> exact fun h => nomatch h
  | cons entry overrides ih =>
    have hstep : table.overrideAll (entry :: overrides)
        = (table.overrideOrFail entry >>= fun next => next.overrideAll overrides) :=
      rfl
    rw [hstep, List.findSome?_cons, overrideOrFail]
    rcases override_cases table entry.1 entry.2.objectClass entry.2.permissions
      with ⟨fault, hfault, heq⟩ | ⟨meaning, hmeaning, heq⟩
    · rw [heq, overrideError?, meaningOf_eq_error_iff.mp hfault]
      show Except.error (GenerationError.badOverride entry.1 fault) = .error error ↔
        some (GenerationError.badOverride entry.1 fault) = some error
      rw [Except.error.injEq, Option.some.injEq]
    · have hnone : entry.2.fault? = none := by
        refine Option.eq_none_iff_forall_ne_some.mpr fun fault hfault => ?_
        have herror := meaningOf_eq_error_iff.mpr hfault
        rw [hmeaning] at herror
        cases herror
      rw [heq, overrideError?, hnone]
      exact ih

end ActionTable

/-! ## Generators -/

namespace Options

variable {options : Options} {settings : Settings} {error : GenerationError}

theorem generator_eq_error_iff :
    options.generator = .error error ↔
      options.actionOverrides.findSome? ActionTable.overrideError? = some error := by
  have hoverrides : ActionTable.standard.overrideAll options.actionOverrides = .error error ↔
      options.actionOverrides.findSome? ActionTable.overrideError? = some error :=
    ActionTable.overrideAll_eq_error_iff
  rw [← hoverrides, generator]
  cases ActionTable.standard.overrideAll options.actionOverrides <;> simp [Except.map]

/-- Options have a generator if no override has a fault. -/
theorem exists_generator_iff :
    (∃ generator, options.generator = .ok generator) ↔
      ∀ entry ∈ options.actionOverrides, entry.2.fault? = none := by
  have hnone : (∀ entry ∈ options.actionOverrides, entry.2.fault? = none) ↔
      options.actionOverrides.findSome? ActionTable.overrideError? = none := by
    rw [List.findSome?_eq_none_iff]
    exact forall₂_congr fun entry _ => Option.map_eq_none_iff.symm
  rw [hnone, Option.eq_none_iff_forall_ne_some]
  simp only [ne_eq, ← generator_eq_error_iff]
  cases options.generator <;> simp

end Options

/-! ## Settings -/

theorem Settings.checkAction_eq_ok_iff {action : String} {meaning : ActionMeaning} :
    checkAction action meaning = .ok () ↔
      Text.allBlank meaning.objectClass = false ∧ meaning.permissions ≠ [] := by
  rw [checkAction]
  by_cases hclass : Text.allBlank meaning.objectClass = true
  · simp [hclass]
  · by_cases hpermissions : meaning.permissions.isEmpty = true
    · simp [hclass, List.isEmpty_iff.mp hpermissions]
    · simp [hclass, hpermissions, List.isEmpty_iff.not.mp hpermissions]

theorem Settings.check_eq_ok_iff {settings : Settings} :
    settings.check = .ok () ↔
      Text.allBlank settings.moduleName = false
        ∧ ∀ entry ∈ settings.actions,
            Text.allBlank entry.2.objectClass = false ∧ entry.2.permissions ≠ [] := by
  rw [check]
  by_cases hname : Text.allBlank settings.moduleName = true
  · simp [hname]
  · rw [if_neg hname, forM_eq_ok_iff, and_iff_right (Bool.eq_false_of_not_eq_true hname)]
    exact forall₂_congr fun entry _ => checkAction_eq_ok_iff

namespace Options

variable {options : Options} {settings : Settings}

/-- Settings that give options pass, and their actions are the overrides. -/
theorem check_of_ofSettings (h : ofSettings settings = .ok options) :
    settings.check = .ok () ∧ options.actionOverrides = settings.actions := by
  rw [ofSettings, bind_eq_ok_iff] at h
  obtain ⟨_, hcheck, hrest⟩ := h
  obtain ⟨kinds, -, heq⟩ := bind_eq_ok_iff.mp hrest
  cases heq
  exact ⟨mapError_eq_ok_iff.mp hcheck, rfl⟩

/-- Settings that give options have a generator exactly if each of their actions has a permission
that is not blank. There is one error that the check leaves to the generator: an action with
permissions, all of them blank. -/
theorem exists_generator_of_ofSettings_iff (h : ofSettings settings = .ok options) :
    ((∃ generator, options.generator = .ok generator) ↔
        ∀ entry ∈ settings.actions, ∃ permission ∈ entry.2.permissions,
          Text.allBlank permission = false)
      ∧ ∀ error, options.generator = .error error →
          ∃ entry ∈ settings.actions, error = .badOverride entry.1 .noPermissions
            ∧ entry.2.permissions ≠ []
            ∧ ∀ permission ∈ entry.2.permissions, Text.allBlank permission = true := by
  obtain ⟨hcheck, hsame⟩ := check_of_ofSettings h
  obtain ⟨-, hactions⟩ := Settings.check_eq_ok_iff.mp hcheck
  constructor
  · rw [exists_generator_iff, hsame]
    refine forall₂_congr fun entry hentry => ?_
    rw [ActionMeaning.fault?_eq_none_iff, and_iff_right (hactions entry hentry).1]
  · intro error herror
    rw [generator_eq_error_iff, hsame] at herror
    obtain ⟨entry, hentry, hfound⟩ := List.exists_of_findSome?_eq_some herror
    obtain ⟨fault, hfault, heq⟩ := Option.map_eq_some_iff.mp hfound
    obtain ⟨hclass, hpermissions⟩ := hactions entry hentry
    obtain ⟨hkind, hblank⟩ := ActionMeaning.eq_noPermissions_of_fault? hclass hfault
    exact ⟨entry, hentry, by rw [← heq, hkind], hpermissions, hblank⟩

/-- An action with a blank permission and another one. -/
def partlyBlank : Settings :=
  { actions := [("serve", ⟨" file", [" ", "read "]⟩)] }

theorem exists_generator_partlyBlank :
    ∃ options, ofSettings partlyBlank = .ok options
      ∧ ∃ generator, options.generator = .ok generator := by
  have hok : (ofSettings partlyBlank).isOk = true := by decide +kernel
  obtain ⟨options, hoptions⟩ := exists_of_isOk hok
  have hpermission : ∀ entry ∈ partlyBlank.actions, ∃ permission ∈ entry.2.permissions,
      Text.allBlank permission = false := by
    decide +kernel
  exact ⟨options, hoptions, (exists_generator_of_ofSettings_iff hoptions).1.mpr hpermission⟩

/-- An action whose one permission is blank. -/
def blankPermission : Settings :=
  { actions := [("serve", ⟨"file", [" "]⟩)] }

/-- Settings may pass although the table of actions refuses an override. -/
theorem noPermissions_blankPermission :
    ∃ options, ofSettings blankPermission = .ok options
      ∧ options.generator = .error (.badOverride "serve" .noPermissions) := by
  have hfails : ((ofSettings blankPermission).toOption.map fun options =>
      decide (options.generator = .error (.badOverride "serve" .noPermissions))) = some true := by
    decide +kernel
  obtain ⟨options, hoptions, hgenerator⟩ := Option.map_eq_some_iff.mp hfails
  exact ⟨options, toOption_eq_some_iff.mp hoptions, of_decide_eq_true hgenerator⟩

end Options

end TypeEnforcement
