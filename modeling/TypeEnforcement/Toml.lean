import TypeEnforcement.Canonical
/-!
# TOML values

The values of a TOML document: texts, integers, floats, booleans, arrays and tables. A date is its
text. A table is a list of keys and values with canonical keys.

`overlay` lays one value over another: tables are joined key by key, and any other value takes the
place of what was there. `overlayAt` does so at a place further down, which a list of steps names;
what is in the way of a step gives way. Documents are built so, and so are plain sources joined.
-/

namespace TypeEnforcement.Toml

/-- A value of a document. -/
inductive Value where
  | text (s : String)
  | integer (n : Int)
  | float (x : Float)
  | boolean (b : Bool)
  | array (values : List Value)
  | table (entries : List (String × Value))
  /-- What stands at a place to which no value was given. -/
  | nothing
deriving Repr, Inhabited

/-- The keys of a table and their values. -/
abbrev Entries := List (String × Value)

namespace Entries

/-- The value of a key. -/
def valueAt (key : String) (es : Entries) : Value :=
  (es.lookup key).getD .nothing

end Entries

namespace Value

/-- The entries of a value that is a table; none for any other value. -/
def entries : Value → Entries
  | table es => es
  | _ => []

/-- The members of a value that is an array; none for any other value. -/
def members : Value → List Value
  | array vs => vs
  | _ => []

/-! ## Ranges -/

mutual

/-- Whether all integers of a value are at least `low` and less than `high`. -/
def isWithin (low high : Int) : Value → Bool
  | .integer n => low ≤ n && n < high
  | .array vs => allWithin low high vs
  | .table es => entriesWithin low high es
  | _ => true

/-- Whether all integers of values are at least `low` and less than `high`. -/
def allWithin (low high : Int) : List Value → Bool
  | [] => true
  | value :: rest => isWithin low high value && allWithin low high rest

/-- Whether all integers of entries are at least `low` and less than `high`. -/
def entriesWithin (low high : Int) : List (String × Value) → Bool
  | [] => true
  | (_, value) :: rest => isWithin low high value && entriesWithin low high rest

end

/-! ## Overlays -/

mutual

/-- What stands in a place after a value is laid over what is there. -/
def overlay (value : Value) (target : Value) : Value :=
  match value with
  | .table es => .table (overlayAll es target.entries)
  | other => other

/-- Entries after others are laid over them one by one. -/
def overlayAll : List (String × Value) → Entries → Entries
  | [], target => target
  | (key, value) :: rest, target =>
    overlayAll rest (Canonical.assign key (overlay value (target.valueAt key)) target)

end

end Value

/-! ## Places -/

/-- A step from a value to a part of it. -/
inductive Step where
  | key (name : String)
  /-- A negative index counts from the end of an array. -/
  | index (n : Int)
deriving DecidableEq, Repr

/-- Members with as many added that an index has a place among them, and this place. An index
beyond the end adds members there; one before the start adds them there and means the first. -/
def makePlace (index : Int) (vs : List Value) : List Value × Nat :=
  match index with
  | .ofNat n => (vs ++ List.replicate (n + 1 - vs.length) .nothing, n)
  | .negSucc n => (List.replicate (n + 1 - vs.length) .nothing ++ vs, vs.length - (n + 1))

namespace Value

/-- A value after another is laid over the part of it to which steps lead. -/
def overlayAt (value : Value) : (steps : List Step) → (target : Value) → Value
  | [], target => value.overlay target
  | .key name :: steps, target =>
    .table (Canonical.assign name (overlayAt value steps (target.entries.valueAt name))
      target.entries)
  | .index n :: steps, target =>
    .array ((makePlace n target.members).1.modify (makePlace n target.members).2
      (overlayAt value steps))

end Value

end TypeEnforcement.Toml
