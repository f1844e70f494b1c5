/-!
# Canonical lists

A finite set has one canonical list: its members in strictly increasing order. Every collection
that the library puts into normal form is such a list, and a finite map is a list of pairs whose
keys are canonical. Beside them stands `distinct`, which keeps the members of a list in the order
in which they first occur.

The order is the `Ord` instance of the member type; for text it is the order of code points.
-/

namespace TypeEnforcement.Canonical

section Order

variable {α : Type} [Ord α]

/-- Puts a member into its place, unless it is there already. -/
def insert (x : α) : List α → List α
  | [] => [x]
  | y :: ys =>
    match compare x y with
    | .lt => x :: y :: ys
    | .eq => y :: ys
    | .gt => y :: insert x ys

/-- The canonical list of the members of a list. -/
def ofList (xs : List α) : List α :=
  xs.foldr insert []

/-- Each member stands before all greater ones and none stands twice. -/
def StrictlyIncreasing (xs : List α) : Prop :=
  xs.Pairwise fun x y => compare x y = .lt

end Order

section Keyed

variable {κ α : Type} [Ord κ]

/-- Sets the value of a key in a map with canonical keys. -/
def assign (key : κ) (value : α) : List (κ × α) → List (κ × α)
  | [] => [(key, value)]
  | (k, v) :: rest =>
    match compare key k with
    | .lt => (key, value) :: (k, v) :: rest
    | .eq => (key, value) :: rest
    | .gt => (k, v) :: assign key value rest

/-- The map that a list of settings leaves: the last value of a key counts. -/
def ofSettings (settings : List (κ × α)) : List (κ × α) :=
  settings.foldl (fun entries (key, value) => assign key value entries) []

end Keyed

section Distinct

variable {α : Type} [DecidableEq α]

/-- The members of a list in the order of their first occurrence. -/
def distinct : List α → List α
  | [] => []
  | x :: xs => x :: (distinct xs).filter (· ≠ x)

/-- The members of a list whose key does not occur before them. -/
def firstPerKey {κ : Type} [DecidableEq κ] (key : α → κ) : List α → List α
  | [] => []
  | x :: xs => x :: (firstPerKey key xs).filter (key · ≠ key x)

end Distinct

end TypeEnforcement.Canonical
