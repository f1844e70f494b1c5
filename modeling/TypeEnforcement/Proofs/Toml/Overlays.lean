import TypeEnforcement.Canonical.Lemmas
import TypeEnforcement.Toml
/-!
# Parts of values and their keys

Keys lead through the tables of a value to its parts (`Value.at?`). The keys of a value are
canonical (`Value.IsCanonical`) if those of each table are to which keys lead. They stay so when a
value is laid over another, also at a place further down (`Value.isCanonical_overlayAt`), and a
table with canonical keys is laid over another one key by key (`Value.lookup_overlayAll`): with one
key twice it would be laid over in two steps, and the first of its two values is not the one that
remains.
-/

namespace TypeEnforcement.Toml.Value

open Canonical

variable {value target part : Value} {es : Entries} {key : String} {path : List String}
  {steps : List Step}

/-! ## Parts -/

/-- What stands in a value where keys lead, if anything does. -/
def at? : (path : List String) → Value → Option Value
  | [], value => some value
  | key :: path, value => (value.entries.lookup key).bind (at? path)

theorem at?_table_cons : (table es).at? (key :: path) = (es.lookup key).bind (at? path) :=
  rfl

theorem at?_cons_of_lookup (h : value.entries.lookup key = some part) :
    value.at? (key :: path) = part.at? path := by
  rw [at?, h, Option.bind_some]

theorem at?_append (path rest : List String) :
    value.at? (path ++ rest) = (value.at? path).bind (at? rest) := by
  induction path generalizing value with
  | nil => rfl
  | cons key path ih =>
    rw [List.cons_append, at?, at?, Option.bind_assoc]
    exact congrArg (Option.bind _) (funext fun _ => ih)

theorem entries_eq_nil (h : ∀ es, value ≠ .table es) : value.entries = [] := by
  cases value with
  | table es => exact absurd rfl (h es)
  | _ => rfl

/-- The entries of a table that keys lead to have canonical keys. -/
def IsCanonical (value : Value) : Prop :=
  ∀ path es, value.at? path = some (.table es) → StrictlyIncreasing (es.map Prod.fst)

theorem IsCanonical.of_lookup (h : value.IsCanonical)
    (hpart : value.entries.lookup key = some part) : part.IsCanonical :=
  fun path es hat => h (key :: path) es ((at?_cons_of_lookup hpart).trans hat)

theorem IsCanonical.keys (h : value.IsCanonical) :
    StrictlyIncreasing (value.entries.map Prod.fst) := by
  cases value with
  | table es => exact h [] es rfl
  | _ => exact List.Pairwise.nil

theorem isCanonical_of_ne_table (h : ∀ es, value ≠ .table es) : value.IsCanonical := by
  intro path es hat
  cases path with
  | nil => exact absurd (Option.some.inj hat) (h es)
  | cons key path =>
    rw [at?, entries_eq_nil h] at hat
    cases hat

theorem isCanonical_table (hkeys : StrictlyIncreasing (es.map Prod.fst))
    (hparts : ∀ key part, es.lookup key = some part → part.IsCanonical) :
    (table es).IsCanonical := by
  intro path fs hat
  cases path with
  | nil =>
    cases hat
    exact hkeys
  | cons key path =>
    obtain ⟨part, hpart, hat⟩ := Option.bind_eq_some_iff.mp hat
    exact hparts key part hpart path fs hat

theorem IsCanonical.of_mem (h : (table es).IsCanonical) {entry : String × Value}
    (hentry : entry ∈ es) : entry.2.IsCanonical := by
  have hkeys : (es.map Prod.fst).Nodup := h.keys.nodup
  exact h.of_lookup (lookup_eq_some_of_mem hkeys hentry)

theorem IsCanonical.table_entries (h : value.IsCanonical) :
    (table value.entries).IsCanonical :=
  isCanonical_table h.keys fun _ _ hpart => h.of_lookup hpart

theorem IsCanonical.valueAt (h : value.IsCanonical) :
    (value.entries.valueAt key).IsCanonical := by
  rw [Entries.valueAt]
  cases hpart : value.entries.lookup key with
  | none => exact isCanonical_of_ne_table fun _ heq => nomatch heq
  | some part => exact h.of_lookup hpart

theorem IsCanonical.assign (h : (table es).IsCanonical) (hvalue : value.IsCanonical) :
    (table (Canonical.assign key value es)).IsCanonical := by
  refine isCanonical_table (strictlyIncreasing_assign h.keys) fun other part hpart => ?_
  rw [lookup_assign] at hpart
  split at hpart
  · cases hpart
    exact hvalue
  · exact h.of_lookup hpart

theorem isCanonical_table_nil : (table []).IsCanonical :=
  isCanonical_table List.Pairwise.nil fun _ _ hpart => (nomatch hpart)

theorem isCanonical_ofSettings (h : ∀ entry ∈ es, entry.2.IsCanonical) :
    (table (ofSettings es)).IsCanonical :=
  List.foldlRecOn (motive := fun entries => (table entries).IsCanonical) es _
    isCanonical_table_nil fun _ hentries entry hentry => hentries.assign (h entry hentry)

/-! ## Overlays -/

theorem overlay_of_ne_table (h : ∀ es, value ≠ .table es) : value.overlay target = value := by
  cases value with
  | table es => exact absurd rfl (h es)
  | _ => rw [overlay]; exact h

theorem strictlyIncreasing_overlayAll {target : Entries}
    (h : StrictlyIncreasing (target.map Prod.fst)) :
    StrictlyIncreasing ((overlayAll es target).map Prod.fst) := by
  induction es generalizing target with
  | nil => exact h
  | cons entry rest ih => exact ih (strictlyIncreasing_assign h)

/-- Entries with different keys are laid over others each in its own place. -/
theorem lookup_overlayAll {target : Entries} (h : (es.map Prod.fst).Nodup) :
    (overlayAll es target).lookup key
      = ((es.lookup key).map fun part => part.overlay (target.valueAt key)).or
          (target.lookup key) := by
  induction es generalizing target with
  | nil => rfl
  | cons entry rest ih =>
    obtain ⟨name, first⟩ := entry
    rw [List.map_cons, List.nodup_cons] at h
    rw [overlayAll, ih h.2, Entries.valueAt, lookup_assign, lookup_cons]
    by_cases hkey : key = name
    · have hnone : rest.lookup key = none := by
        refine Option.eq_none_iff_forall_ne_some.mpr fun part hpart => h.1 ?_
        exact List.mem_map.mpr ⟨(key, part), mem_of_lookup_eq_some hpart, hkey⟩
      rw [hnone, if_pos hkey, if_pos hkey, hkey]
      rfl
    · rw [if_neg hkey, if_neg hkey]
      rfl

theorem at?_overlay_table_cons (h : (table es).IsCanonical) :
    ((table es).overlay target).at? (key :: path)
      = (match es.lookup key with
        | some part => (part.overlay (target.entries.valueAt key)).at? path
        | none => target.at? (key :: path)) := by
  have hkeys : (es.map Prod.fst).Nodup := h.keys.nodup
  rw [overlay, at?_table_cons, lookup_overlayAll hkeys]
  cases es.lookup key <;> rfl

theorem isCanonical_overlay (hvalue : value.IsCanonical) (htarget : target.IsCanonical) :
    (value.overlay target).IsCanonical := by
  intro path
  induction path generalizing value target with
  | nil =>
    intro es hat
    cases value with
    | table fs =>
      cases hat
      exact strictlyIncreasing_overlayAll htarget.keys
    | _ => cases hat
  | cons key path ih =>
    intro es hat
    by_cases htable : ∃ fs, value = .table fs
    · obtain ⟨fs, rfl⟩ := htable
      rw [at?_overlay_table_cons hvalue] at hat
      cases hpart : fs.lookup key with
      | some part =>
        rw [hpart] at hat
        exact ih (hvalue.of_lookup hpart) htarget.valueAt es hat
      | none =>
        rw [hpart] at hat
        exact htarget (key :: path) es hat
    · rw [overlay_of_ne_table (not_exists.mp htable)] at hat
      exact hvalue (key :: path) es hat

theorem isCanonical_overlayAt (hvalue : value.IsCanonical) (htarget : target.IsCanonical) :
    (value.overlayAt steps target).IsCanonical := by
  induction steps generalizing target with
  | nil => exact isCanonical_overlay hvalue htarget
  | cons step steps ih =>
    cases step with
    | index n => exact isCanonical_of_ne_table fun _ heq => nomatch heq
    | key name => exact htarget.table_entries.assign (ih htarget.valueAt)

end TypeEnforcement.Toml.Value
