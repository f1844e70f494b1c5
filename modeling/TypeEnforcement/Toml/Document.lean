import TypeEnforcement.Toml
/-!
# Building TOML documents

A document is built from headers and assignments, and a key may be defined only once. What that
means depends on how a table came about, its `Origin`: a table that a header names cannot be named
by a header again, nor be extended by dotted keys; one that dotted keys made cannot be named by a
header; one that only a longer header made may still be named by its own header, unless a dotted key
has run through it meanwhile. A value that is no table of this kind, an inline table included,
cannot be extended at all.
-/

namespace TypeEnforcement.Toml

/-- How a table of a document came about. -/
inductive Origin where
  /-- A header names it. -/
  | header
  /-- A header names a table in it. -/
  | parent
  /-- A dotted key runs through it. -/
  | dotted
deriving DecidableEq, Repr

/-- A document as far as it is read: its tables and the values assigned, by their paths. -/
structure Document where
  tables : List (List String × Origin)
  values : List (List String × Value)

namespace Document

/-- The document without tables and values. -/
def empty : Document :=
  { tables := [], values := [] }

/-- Whether a value is assigned at a path. -/
def hasValue (document : Document) (path : List String) : Bool :=
  document.values.any (·.1 == path)

/-- How the table at a path came about, if there is one. -/
def origin? (document : Document) (path : List String) : Option Origin :=
  document.tables.lookup path

/-- Notes how the table at a path came about. -/
def define (document : Document) (path : List String) (origin : Origin) : Document :=
  { document with tables := (path, origin) :: document.tables }

/-- The paths from a table down to a key in it, both ends left out. -/
def between (table keys : List String) : List (List String) :=
  (List.range (keys.length - 1)).map fun n => table ++ keys.take (n + 1)

/-- Goes through a table on the way to the one that a header names. -/
def enterParent (document : Document) (path : List String) : Option Document :=
  if document.hasValue path then none
  else if (document.origin? path).isSome then some document
  else some (document.define path .parent)

/-- Opens the table that a header names. -/
def openTable (document : Document) (path : List String) : Option Document := do
  let document ← (between [] path).foldlM enterParent document
  if document.hasValue path then none
  else
    match document.origin? path with
    | none | some .parent => some (document.define path .header)
    | some _ => none

/-- Goes through a table on the way of a dotted key. -/
def enterDotted (document : Document) (path : List String) : Option Document :=
  if document.hasValue path then none
  else
    match document.origin? path with
    | none | some .parent => some (document.define path .dotted)
    | some .dotted => some document
    | some .header => none

/-- Assigns a value to a key, dotted or not, in a table. -/
def assign (document : Document) (table keys : List String) (value : Value) : Option Document := do
  let document ← (between table keys).foldlM enterDotted document
  if document.hasValue (table ++ keys) ∨ (document.origin? (table ++ keys)).isSome then none
  else some { document with values := (table ++ keys, value) :: document.values }

/-- Puts a value at a path of keys. -/
def place (root : Value) (path : List String) (value : Value) : Value :=
  value.overlayAt (path.map .key) root

/-- The entries of a document: its tables, and in them the values assigned. -/
def entries (document : Document) : Entries :=
  let tables := document.tables.reverse.foldl
    (fun root (path, _) => place root path (.table [])) (.table [])
  (document.values.reverse.foldl (fun root (path, value) => place root path value) tables).entries

end Document

end TypeEnforcement.Toml
