import TypeEnforcement.Proofs.Compilation.Classes
import TypeEnforcement.Proofs.Settings.Overrides
/-!
# Actions under any overrides

Overrides are added to a table of actions one by one, and each may be refused. A refused one leaves
the table as it is (`ActionTable.override_of_refused`), so what a table knows of an action is the
last override of it that was accepted, or else its default (`ActionTable.known?_afterAttempts_iff`).

Whatever was attempted, each answer of the table is sound (`ActionMeaning.IsSound`): it has a class
and at least one permission, trimmed and without repetition. Attempts keep the overrides sound, and
the defaults are sound.

## Main result

* `ActionTable.answers_afterAttempts`: the answers of a table after any attempts.
-/

namespace TypeEnforcement

open Canonical (IsDistinctOf)

/-! ## Sound meanings -/

/-- What is expected of every meaning: a class, trimmed, and permissions, none of them twice. -/
structure ActionMeaning.IsSound (meaning : ActionMeaning) : Prop where
  trimmed : Text.trim meaning.objectClass = meaning.objectClass
  objectClass_ne_empty : meaning.objectClass ≠ ""
  permissions_ne_nil : meaning.permissions ≠ []
  nodup_permissions : meaning.permissions.Nodup

namespace ActionTable

variable {table : ActionTable} {action : String} {meaning base : ActionMeaning}
  {asked : Option String} {attempts before after : List (String × ActionMeaning)}
  {entry : String × ActionMeaning}

theorem isSound_of_meaningOf {objectClass : String} {permissions : List String}
    (h : meaningOf objectClass permissions = .ok meaning) : meaning.IsSound := by
  rw [meaningOf] at h
  split at h
  · cases h
  next hclass =>
  split at h
  · cases h
  next hkept =>
  cases h
  exact ⟨Text.trim_trim objectClass, hclass, hkept, Canonical.nodup_distinct _⟩

theorem isSound_of_mem_defaults : ∀ entry ∈ Action.defaults, entry.2.IsSound := by
  have hclass : ∀ entry ∈ Action.defaults,
      Text.trim entry.2.objectClass = entry.2.objectClass ∧ entry.2.objectClass ≠ "" := by
    decide +kernel
  have hpermissions : ∀ entry ∈ Action.defaults, entry.2.permissions.Nodup := by
    decide +kernel
  intro entry hentry
  exact ⟨(hclass entry hentry).1, (hclass entry hentry).2,
    permissions_ne_nil_of_mem_defaults entry hentry, hpermissions entry hentry⟩

/-! ## Attempts -/

/-- The table after an attempt to add an override, accepted or not. -/
def attempt (table : ActionTable) (entry : String × ActionMeaning) : ActionTable :=
  (table.override entry.1 entry.2.objectClass entry.2.permissions).2

/-- The standard table after attempts to add overrides, one by one. -/
def afterAttempts (attempts : List (String × ActionMeaning)) : ActionTable :=
  attempts.foldl attempt standard

/-- An attempt is refused and leaves the table, or puts the override before the earlier ones. -/
theorem attempt_cases (table : ActionTable) (entry : String × ActionMeaning) :
    (∃ fault, meaningOf entry.2.objectClass entry.2.permissions = .error fault
        ∧ table.attempt entry = table)
      ∨ ∃ meaning, meaningOf entry.2.objectClass entry.2.permissions = .ok meaning
        ∧ table.attempt entry = { overrides := (entry.1, meaning) :: table.overrides } := by
  rw [attempt]
  rcases override_cases table entry.1 entry.2.objectClass entry.2.permissions
    with ⟨fault, hfault, heq⟩ | ⟨meaning, hmeaning, heq⟩
  · exact Or.inl ⟨fault, hfault, by rw [heq]⟩
  · exact Or.inr ⟨meaning, hmeaning, by rw [heq]⟩

/-- A refused attempt might as well not have been made. -/
theorem afterAttempts_of_refused {fault : OverrideFault}
    (h : ((afterAttempts before).override entry.1 entry.2.objectClass entry.2.permissions).1
      = .error fault) :
    afterAttempts (before ++ entry :: after) = afterAttempts (before ++ after) := by
  have hstep : (before.foldl attempt standard).attempt entry = before.foldl attempt standard :=
    override_of_refused h
  rw [afterAttempts, afterAttempts, List.foldl_append, List.foldl_cons, hstep, List.foldl_append]

/-! ### What is in force -/

/-- An override is in force after attempts: it was accepted, and no later one of its action was. -/
def IsInForce (attempts : List (String × ActionMeaning)) (action : String)
    (meaning : ActionMeaning) : Prop :=
  ∃ before given after, attempts = before ++ (action, given) :: after
    ∧ meaningOf given.objectClass given.permissions = .ok meaning
    ∧ ∀ later ∈ after, later.1 = action →
        ∃ fault, meaningOf later.2.objectClass later.2.permissions = .error fault

/-- What an action stands for after attempts, apart from the class that a rule asks for: the
override in force, and where there is none, its default. -/
def StandsFor (attempts : List (String × ActionMeaning)) (action : String)
    (base : ActionMeaning) : Prop :=
  IsInForce attempts action base
    ∨ (∀ meaning, ¬IsInForce attempts action meaning) ∧ Action.defaults.lookup action = some base

theorem isInForce_concat :
    IsInForce (attempts ++ [entry]) action meaning ↔
      (entry.1 = action ∧ meaningOf entry.2.objectClass entry.2.permissions = .ok meaning)
        ∨ (entry.1 = action →
            ∃ fault, meaningOf entry.2.objectClass entry.2.permissions = .error fault)
          ∧ IsInForce attempts action meaning := by
  constructor
  · intro hforce
    obtain ⟨before, given, after, heq, hgiven, hlater⟩ := hforce
    -- the last attempt is the override in force if nothing comes after that
    rcases List.eq_nil_or_concat' after with rfl | ⟨rest, last, rfl⟩
    · obtain ⟨-, hlast⟩ := List.append_inj' heq rfl
      obtain rfl : entry = (action, given) := List.singleton_inj.mp hlast
      exact Or.inl ⟨rfl, hgiven⟩
    · have hsplit : attempts ++ [entry] = (before ++ (action, given) :: rest) ++ [last] := by
        rw [heq, List.append_assoc, List.cons_append]
      obtain ⟨hrest, hlast⟩ := List.append_inj' hsplit rfl
      obtain rfl : entry = last := List.singleton_inj.mp hlast
      exact Or.inr ⟨hlater entry (by simp), before, given, rest, hrest, hgiven,
        fun later hmem => hlater later (List.mem_append_left _ hmem)⟩
  · intro hcases
    rcases hcases with ⟨rfl, hgiven⟩ | ⟨hrefused, before, given, rest, rfl, hgiven, hlater⟩
    · exact ⟨attempts, entry.2, [], rfl, hgiven, fun _ hmem => absurd hmem List.not_mem_nil⟩
    · refine ⟨before, given, rest ++ [entry], ?_, hgiven, ?_⟩
      · rw [List.append_assoc, List.cons_append]
      · intro later hmem
        rcases List.mem_append.mp hmem with hrest | hlast
        · exact hlater later hrest
        · rw [List.mem_singleton.mp hlast]
          exact hrefused

theorem afterAttempts_concat (attempts : List (String × ActionMeaning))
    (entry : String × ActionMeaning) :
    afterAttempts (attempts ++ [entry]) = (afterAttempts attempts).attempt entry :=
  List.foldl_concat ..

/-- The overrides of a table are those in force. -/
theorem lookup_overrides_afterAttempts_iff :
    (afterAttempts attempts).overrides.lookup action = some meaning ↔
      IsInForce attempts action meaning := by
  -- a later override hides the earlier ones, so attempts are taken off at their end
  induction attempts using List.reverseRecOn with
  | nil =>
    constructor
    · exact fun hnone => nomatch hnone
    · intro hforce
      obtain ⟨before, given, after, heq, -⟩ := hforce
      exact absurd heq (by simp)
  | append_singleton attempts entry ih =>
    rw [afterAttempts_concat, isInForce_concat, ← ih]
    rcases attempt_cases (afterAttempts attempts) entry with ⟨fault, hrefused, hafter⟩ | hok
    · simp [hrefused, hafter]
    · obtain ⟨given, hgiven, hafter⟩ := hok
      rw [hafter, hgiven, List.lookup_cons]
      by_cases haction : entry.1 = action
      · simp [haction]
      · have hother : (action == entry.1) = false := beq_eq_false_iff_ne.mpr (Ne.symm haction)
        simp [haction, hother]

theorem known?_afterAttempts_iff :
    (afterAttempts attempts).known? action = some base ↔ StandsFor attempts action base := by
  have hnone : (afterAttempts attempts).overrides.lookup action = none ↔
      ∀ meaning, ¬IsInForce attempts action meaning := by
    simp only [Option.eq_none_iff_forall_ne_some, ne_eq, lookup_overrides_afterAttempts_iff]
  rw [known?, Option.or_eq_some_iff, hnone, lookup_overrides_afterAttempts_iff, StandsFor]

/-! ### What is kept -/

/-- Every override of a table is sound. -/
def IsSound (table : ActionTable) : Prop :=
  ∀ entry ∈ table.overrides, entry.2.IsSound

theorem IsSound.attempt (h : table.IsSound) (entry : String × ActionMeaning) :
    (table.attempt entry).IsSound := by
  rcases attempt_cases table entry with ⟨fault, -, hafter⟩ | ⟨meaning, hmeaning, hafter⟩
  · rwa [hafter]
  · rw [hafter]
    intro other hother
    rcases List.mem_cons.mp hother with rfl | hearlier
    · exact isSound_of_meaningOf hmeaning
    · exact h other hearlier

theorem IsSound.foldl_attempt (h : table.IsSound) (attempts : List (String × ActionMeaning)) :
    (attempts.foldl ActionTable.attempt table).IsSound := by
  induction attempts generalizing table with
  | nil => exact h
  | cons entry attempts ih => exact ih (h.attempt entry)

theorem isSound_afterAttempts (attempts : List (String × ActionMeaning)) :
    (afterAttempts attempts).IsSound := by
  have hstandard : standard.IsSound := fun _ hmem => absurd hmem List.not_mem_nil
  exact hstandard.foldl_attempt attempts

/-! ## Answers -/

theorem IsSound.isSound_known (h : table.IsSound) (hknown : table.known? action = some base) :
    base.IsSound := by
  rw [known?, Option.or_eq_some_iff] at hknown
  rcases hknown with hoverride | ⟨-, hdefault⟩
  · exact h _ (mem_of_lookup_eq_some hoverride)
  · exact isSound_of_mem_defaults _ (mem_of_lookup_eq_some hdefault)

/-- A class that a rule asks for is trimmed and not empty. -/
theorem trim_of_requested? {found : String} (h : requested? asked = some found) :
    Text.trim found = found ∧ found ≠ "" := by
  obtain ⟨hmap, hsome⟩ := Option.filter_eq_some_iff.mp h
  obtain ⟨objectClass, -, rfl⟩ := Option.map_eq_some_iff.mp hmap
  exact ⟨Text.trim_trim objectClass, of_decide_eq_true hsome⟩

theorem requested?_of_not_blank {objectClass : String} (h : Text.allBlank objectClass = false) :
    requested? (some objectClass) = some (Text.trim objectClass) := by
  have hsome : Text.trim objectClass ≠ "" := by
    rw [ne_eq, Text.trim_eq_empty_iff, h]
    exact Bool.false_ne_true
  rw [requested?, Option.map_some, Option.filter_some, if_pos (decide_eq_true hsome)]

/-- The permission to unlink is respelled, and nothing is respelled as it. -/
theorem unlink_notMem_onDirectory (permission : String) :
    "unlink" ∉ Action.onDirectory permission := by
  unfold Action.onDirectory
  split <;> simp_all [eq_comm]

theorem isSound_fallback {found : String} (hclass : Text.trim found = found ∧ found ≠ "")
    (action : String) : (ActionMeaning.mk found [action]).IsSound :=
  ⟨hclass.1, hclass.2, List.cons_ne_nil _ _, List.nodup_singleton action⟩

theorem IsSound.isSound_meaning (h : table.IsSound) (action : String) (asked : Option String) :
    (table.meaning action asked).IsSound := by
  rw [ActionTable.meaning]
  split
  · cases hfound : requested? asked with
    | none => exact isSound_fallback (by decide) action
    | some found => exact isSound_fallback (trim_of_requested? hfound) action
  · next base hknown _ => exact h.isSound_known hknown
  · next base found hknown hfound =>
    have hbase := h.isSound_known hknown
    obtain ⟨htrimmed, hsome⟩ := trim_of_requested? hfound
    split
    · exact hbase
    split
    · exact ⟨htrimmed, hsome,
        Canonical.distinct_ne_nil (onDirectory_flatMap_ne_nil hbase.permissions_ne_nil),
        Canonical.nodup_distinct _⟩
    · exact ⟨htrimmed, hsome, hbase.permissions_ne_nil, hbase.nodup_permissions⟩

/-- A known action has other permissions on directories than on the objects it is known for. -/
theorem permissions_meaning_directory (hknown : table.known? action = some base)
    (hasked : requested? asked = some ObjectClass.directory)
    (hother : base.objectClass ≠ ObjectClass.directory) :
    (table.meaning action asked).permissions
      = Canonical.distinct (base.permissions.flatMap Action.onDirectory) := by
  rw [meaning, hknown, hasked]
  simp only [hother.symm, if_false, if_true]

/-- How a table answers if its actions stand for given meanings where a rule asks for no class. -/
structure Answers (table : ActionTable) (standsFor : String → ActionMeaning → Prop) : Prop where
  knows : ∀ action, table.knows action = true ↔ ∃ base, standsFor action base
  meaning_none : ∀ action base, standsFor action base → table.meaning action none = base
  isSound : ∀ action asked, (table.meaning action asked).IsSound
  objectClass : ∀ action asked, Text.allBlank asked = false →
    (table.meaning action (some asked)).objectClass = Text.trim asked
  permissions_directory : ∀ action base asked, standsFor action base →
    Text.trim asked = ObjectClass.directory → base.objectClass ≠ ObjectClass.directory →
      IsDistinctOf (table.meaning action (some asked)).permissions
          (base.permissions.flatMap Action.onDirectory)
        ∧ "unlink" ∉ (table.meaning action (some asked)).permissions

theorem answers_known? (h : table.IsSound) :
    table.Answers fun action base => table.known? action = some base where
  knows := fun action => Option.isSome_iff_exists
  meaning_none := fun action base hknown => by rw [meaning, hknown]; rfl
  isSound := h.isSound_meaning
  objectClass := fun action asked hsome =>
    objectClass_meaning_of_requested (requested?_of_not_blank hsome)
  permissions_directory := by
    intro action base asked hknown hasked hother
    have hsome : Text.allBlank asked = false := by
      rw [← Bool.not_eq_true, ← Text.trim_eq_empty_iff, hasked]
      decide
    have hrequested : requested? (some asked) = some ObjectClass.directory := by
      rw [requested?_of_not_blank hsome, hasked]
    have hdistinct := Canonical.isDistinctOf_distinct (base.permissions.flatMap Action.onDirectory)
    rw [permissions_meaning_directory hknown hrequested hother]
    refine ⟨hdistinct, ?_⟩
    rw [hdistinct.mem_iff, List.mem_flatMap]
    intro hexists
    obtain ⟨permission, -, hspelled⟩ := hexists
    exact unlink_notMem_onDirectory permission hspelled

/-- After any attempts to add overrides, an action stands for the last override of it that was
accepted, and where there is none, for its default; a refused attempt might as well not have been
made. -/
theorem answers_afterAttempts (attempts : List (String × ActionMeaning)) :
    (afterAttempts attempts).Answers (StandsFor attempts)
      ∧ ∀ before entry after fault, attempts = before ++ entry :: after →
          ((afterAttempts before).override entry.1 entry.2.objectClass entry.2.permissions).1
            = .error fault →
          afterAttempts attempts = afterAttempts (before ++ after) := by
  constructor
  · have hknown : StandsFor attempts
        = fun action base => (afterAttempts attempts).known? action = some base := by
      funext action base
      exact propext known?_afterAttempts_iff.symm
    rw [hknown]
    exact answers_known? (isSound_afterAttempts attempts)
  · intro before entry after fault heq hrefused
    rw [heq]
    exact afterAttempts_of_refused hrefused

/-- An override that is accepted and two that are refused, one of them of the same action. -/
def contested : List (String × ActionMeaning) := [
  ("read", ⟨" lnk_file", ["read ", " ", "unlink", "read"]⟩),
  ("read", ⟨"dir", [" "]⟩),
  ("serve", ⟨" ", ["send"]⟩)]

theorem answers_afterAttempts_contested :
    StandsFor contested "read" ⟨"lnk_file", ["read", "unlink"]⟩
      ∧ (afterAttempts contested).meaning "read" none = ⟨"lnk_file", ["read", "unlink"]⟩
      ∧ IsDistinctOf ((afterAttempts contested).meaning "read" (some "dir ")).permissions
          ["read", "search", "remove_name"]
      ∧ afterAttempts contested = afterAttempts (contested.eraseIdx 1) := by
  obtain ⟨hanswers, hrefused⟩ := answers_afterAttempts contested
  have hstands : StandsFor contested "read" ⟨"lnk_file", ["read", "unlink"]⟩ := by
    refine Or.inl ⟨[], _, _, rfl, by decide +kernel, ?_⟩
    intro later hlater hread
    rcases List.mem_pair.mp hlater with rfl | rfl
    · exact ⟨.noPermissions, by decide +kernel⟩
    · exact absurd hread (by decide)
  refine ⟨hstands, hanswers.meaning_none _ _ hstands, ?_, ?_⟩
  · exact (hanswers.permissions_directory _ _ "dir " hstands (by decide +kernel) (by decide)).1
  · exact hrefused [contested[0]] contested[1] [contested[2]] .noPermissions rfl (by decide +kernel)

end ActionTable

end TypeEnforcement
