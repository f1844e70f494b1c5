import TypeEnforcement.Proofs.Toml.Overlays
import TypeEnforcement.Settings
/-!
# Shapes and leaves of settings

Each place in a document of settings wants a value of one kind: a text, a boolean, a list of texts
or a table. `documentShape` says which, for the whole document. What stands at a key that means
nothing to settings may be anything. A value of the right types has its shape (`Shape.Fits`), and
what a source says at a key has the shape of the place to which the key leads (`Shape.FitsAt`).

Settings are taken apart into leaves: each field of a part, the class and the permissions of each
action, and the kind of each path (`Leaf`). A leaf has a place in a document (`Leaf.path`) and a
value in settings (`Leaf.valueIn?`); the actions and paths that settings do not name have none.
-/

namespace TypeEnforcement.Settings

open Canonical Toml

/-! ## Shapes -/

/-- What kind of value a place wants. -/
inductive Shape where
  | text
  | flag
  | texts
  /-- A table, with the shapes of what stands at its keys. A key without a shape means nothing. -/
  | table (members : String → Option Shape)

/-- A table with a fixed set of keys. -/
def Shape.fields (members : List (String × Shape)) : Shape :=
  .table fun key => members.lookup key

/-- A table whose keys are free. -/
def Shape.every (member : Shape) : Shape :=
  .table fun _ => some member

/-- The shape of the meaning of an action. -/
def meaningShape : Shape :=
  .fields [("class", .text), ("permissions", .texts)]

/-- The shape of a document of settings. -/
def documentShape : Shape :=
  .fields [
    ("module", .fields [("name", .text), ("version", .text)]),
    ("analyzer", .fields [("extended_globs", .flag)]),
    ("generator", .fields [("auto_transitions", .flag), ("file_contexts", .flag)]),
    ("optimizer", .fields [("enabled", .flag), ("eliminate_redundant", .flag),
      ("prune_unused_types", .flag)]),
    ("actions", .every meaningShape),
    ("file_types", .every .text)]

namespace Shape

/-- The shape of what stands at a key. -/
def member? : Shape → (key : String) → Option Shape
  | .table members, key => members key
  | _, _ => none

/-- The shape of what stands where keys lead. -/
def at? : (path : List String) → Shape → Option Shape
  | [], shape => some shape
  | key :: path, shape => (shape.member? key).bind (at? path)

/-- Whether a shape is one of values that are no tables. -/
def IsLeaf (shape : Shape) : Prop :=
  ∀ members, shape ≠ .table members

/-- A value has a shape. -/
inductive Fits : Shape → Value → Prop
  | text (s : String) : Fits .text (.text s)
  | flag (b : Bool) : Fits .flag (.boolean b)
  | texts (ts : List String) : Fits .texts (.array (ts.map .text))
  | table {members : String → Option Shape} {es : Entries}
      (parts : ∀ key member part, members key = some member → es.lookup key = some part →
        Fits member part) :
      Fits (.table members) (.table es)

/-- What stands at a place has a shape, if anything stands there. -/
def FitsIfPresent (shape : Shape) (value : Value) : Prop :=
  value = .nothing ∨ shape.Fits value

/-- A value has the shape of the place to which steps lead. No value is wanted at a place within
what is to be no table, such as a member of a list. -/
def FitsAt : Shape → (steps : List Step) → Value → Prop
  | shape, [], value => shape.Fits value
  | .table members, .key name :: steps, value =>
    ∀ member, members name = some member → member.FitsAt steps value
  | _, _, _ => False

variable {shape leaf : Shape} {members : String → Option Shape} {value part : Value}
  {es : Entries} {key : String} {path : List String} {steps : List Step}

theorem Fits.member {member : Shape} (h : shape.Fits value)
    (hmember : shape.member? key = some member) (hpart : value.entries.lookup key = some part) :
    member.Fits part := by
  cases h with
  | table parts => exact parts key member part hmember hpart
  | _ => cases hmember

theorem FitsIfPresent.member {member : Shape} (h : shape.FitsIfPresent value)
    (hmember : shape.member? key = some member) (hpart : value.entries.lookup key = some part) :
    member.Fits part := by
  rcases h with rfl | h
  · cases hpart
  · exact h.member hmember hpart

theorem FitsIfPresent.valueAt {member : Shape} (h : shape.FitsIfPresent value)
    (hmember : shape.member? key = some member) :
    member.FitsIfPresent (value.entries.valueAt key) := by
  rw [Entries.valueAt]
  cases hpart : value.entries.lookup key with
  | none => exact Or.inl rfl
  | some part => exact Or.inr (h.member hmember hpart)

theorem fits_table_nil : (Shape.table members).Fits (.table []) :=
  .table fun _ _ _ _ hpart => nomatch hpart

theorem Fits.eq_table (h : (Shape.table members).Fits value) : value = .table value.entries := by
  cases h
  rfl

theorem FitsIfPresent.eq_nothing_or_table (h : (Shape.table members).FitsIfPresent value) :
    value = .nothing ∨ ∃ es, value = .table es :=
  h.imp_right fun hfits => ⟨_, hfits.eq_table⟩

theorem Fits.ne_table (h : shape.Fits value) (hleaf : shape.IsLeaf) : ∀ es, value ≠ .table es := by
  rintro es rfl
  cases h with
  | @table members => exact hleaf members rfl

theorem Fits.of_at? (h : shape.Fits value) (hshape : shape.at? path = some leaf)
    (hpart : value.at? path = some part) : leaf.Fits part := by
  induction path generalizing shape value with
  | nil =>
    cases hshape
    cases hpart
    exact h
  | cons key path ih =>
    obtain ⟨member, hmember, hshape⟩ := Option.bind_eq_some_iff.mp hshape
    obtain ⟨below, hbelow, hpart⟩ := Option.bind_eq_some_iff.mp hpart
    exact ih (h.member hmember hbelow) hshape hpart

/-- Only a table wants something within. -/
theorem FitsAt.exists_table {step : Step} (h : shape.FitsAt (step :: steps) value) :
    ∃ members name, shape = .table members ∧ step = .key name
      ∧ ∀ member, members name = some member → member.FitsAt steps value := by
  cases shape with
  | table members =>
    cases step with
    | index n => exact h.elim
    | key name => exact ⟨members, name, rfl, rfl, h⟩
  | _ => cases step <;> exact h.elim

/-! ## Checking shapes -/

/-- Whether a value is a text. -/
def isText : Value → Bool
  | .text _ => true
  | _ => false

mutual

/-- Whether a value has a shape, and each entry of a table counts. -/
def admits : Shape → Value → Bool
  | .text, .text _ => true
  | .flag, .boolean _ => true
  | .texts, .array vs => vs.all isText
  | .table members, .table es => admitsAll members es
  | _, _ => false

/-- Whether what stands at the keys of a table has the shapes that the keys want. -/
def admitsAll (members : String → Option Shape) : List (String × Value) → Bool
  | [] => true
  | (key, value) :: rest =>
    (match members key with
      | some shape => admits shape value
      | none => true) && admitsAll members rest

end

/-- Whether a value has the shape of the place to which steps lead. -/
def admitsAt : Shape → (steps : List Step) → Value → Bool
  | shape, [], value => shape.admits value
  | .table members, .key key :: steps, value =>
    match members key with
    | some shape => admitsAt shape steps value
    | none => true
  | _, _, _ => false

theorem exists_texts_of_all_isText {vs : List Value} (h : vs.all isText = true) :
    ∃ ts : List String, vs = ts.map .text := by
  induction vs with
  | nil => exact ⟨[], rfl⟩
  | cons v vs ih =>
    rw [List.all_cons, Bool.and_eq_true] at h
    obtain ⟨ts, rfl⟩ := ih h.2
    cases v with
    | text t => exact ⟨t :: ts, rfl⟩
    | _ => exact absurd h.1 Bool.false_ne_true

mutual

theorem fits_of_admits (value : Value) {shape : Shape} (h : shape.admits value = true) :
    shape.Fits value := by
  match shape, value with
  | .text, .text s => exact .text s
  | .flag, .boolean b => exact .flag b
  | .texts, .array vs =>
    obtain ⟨ts, rfl⟩ := exists_texts_of_all_isText h
    exact .texts ts
  | .table members, .table es => exact .table (fits_of_admitsAll es h)

theorem fits_of_admitsAll (es : List (String × Value)) {members : String → Option Shape}
    (h : admitsAll members es = true) :
    ∀ key member part, members key = some member → es.lookup key = some part →
      member.Fits part := by
  intro key member part hmember hpart
  match es with
  | (name, value) :: rest =>
    rw [admitsAll, Bool.and_eq_true] at h
    rw [lookup_cons] at hpart
    split at hpart
    · next hname =>
      subst hname
      cases hpart
      have hvalue := h.1
      rw [hmember] at hvalue
      exact fits_of_admits value hvalue
    · exact fits_of_admitsAll rest h.2 key member part hmember hpart

end

theorem fitsAt_of_admitsAt (h : shape.admitsAt steps value = true) : shape.FitsAt steps value := by
  induction steps generalizing shape with
  | nil => exact fits_of_admits value h
  | cons step steps ih =>
    cases shape with
    | table members =>
      cases step with
      | index n => cases h
      | key name =>
        intro member hmember
        rw [admitsAt, hmember] at h
        exact ih h
    | _ => cases step <;> cases h

end Shape

/-! ## Leaves -/

/-- A setting that is set as a whole. -/
inductive Leaf where
  | moduleName
  | version
  | extendedGlobs
  | infersTransitions
  | labelsFiles
  | optimizes
  | eliminatesRedundant
  | prunesTypes
  | actionClass (action : String)
  | actionPermissions (action : String)
  | fileKind (path : String)
deriving DecidableEq, Repr

namespace Leaf

/-- The keys that lead to a leaf in a document. -/
def path : Leaf → List String
  | moduleName => ["module", "name"]
  | version => ["module", "version"]
  | extendedGlobs => ["analyzer", "extended_globs"]
  | infersTransitions => ["generator", "auto_transitions"]
  | labelsFiles => ["generator", "file_contexts"]
  | optimizes => ["optimizer", "enabled"]
  | eliminatesRedundant => ["optimizer", "eliminate_redundant"]
  | prunesTypes => ["optimizer", "prune_unused_types"]
  | actionClass action => ["actions", action, "class"]
  | actionPermissions action => ["actions", action, "permissions"]
  | fileKind path => ["file_types", path]

/-- The shape of the value of a leaf. -/
def shape : Leaf → Shape
  | moduleName | version | actionClass _ | fileKind _ => .text
  | actionPermissions _ => .texts
  | _ => .flag

/-- The value of a leaf in settings, if they have one. -/
def valueIn? (settings : Settings) : Leaf → Option Value
  | moduleName => some (.text settings.moduleName)
  | version => some (.text settings.version)
  | extendedGlobs => some (.boolean settings.extendedGlobs)
  | infersTransitions => some (.boolean settings.infersTransitions)
  | labelsFiles => some (.boolean settings.labelsFiles)
  | optimizes => some (.boolean settings.optimizes)
  | eliminatesRedundant => some (.boolean settings.eliminatesRedundant)
  | prunesTypes => some (.boolean settings.prunesTypes)
  | actionClass action => (settings.actions.lookup action).map (.text ·.objectClass)
  | actionPermissions action =>
    (settings.actions.lookup action).map fun meaning => .array (meaning.permissions.map .text)
  | fileKind path => (settings.fileKinds.lookup path).map .text

theorem at?_path (leaf : Leaf) : documentShape.at? leaf.path = some leaf.shape := by
  cases leaf <;> rfl

theorem isLeaf_shape (leaf : Leaf) : leaf.shape.IsLeaf := by
  cases leaf <;> exact fun _ heq => (nomatch heq)

end Leaf

end TypeEnforcement.Settings
