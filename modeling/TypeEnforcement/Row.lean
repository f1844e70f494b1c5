import TypeEnforcement.Text
/-!
# Rows of a rule table

A rule table is a text of one row a line. A row is a tag and its fields, separated by commas; a
comma inside a brace group `{a,b}` belongs to its field. Blank lines and lines that start with
`#` hold no row. `Row.ofLine?` reads a line and `Row.render` writes a row.
-/

namespace TypeEnforcement

/-- One row of a rule table; `fields` does not include the tag. -/
structure Row where
  tag : String
  fields : List String
  /-- The number of the row's line in its table, counted from one, where it is known. -/
  line : Option Nat
deriving DecidableEq, Repr

namespace Row

/-! ## Reading -/

/-- The depth of brace groups after a character. A closing brace outside all groups is plain. -/
def depthAfter (depth : Nat) (c : Char) : Nat :=
  if c = '{' then depth + 1 else if c = '}' then depth - 1 else depth

/-- Splits at the commas outside brace groups, starting inside `depth` of them. -/
def splitFields (depth : Nat) : List Char → List (List Char)
  | [] => [[]]
  | c :: cs =>
    if c = ',' ∧ depth = 0 then [] :: splitFields 0 cs
    else match splitFields (depthAfter depth c) cs with
      | [] => [[c]]
      | field :: fields => (c :: field) :: fields

/-- A row without a line number, its tag and fields trimmed. -/
def ofFields (tag : String) (fields : List String) : Row :=
  { tag := Text.trim tag, fields := fields.map Text.trim, line := none }

/-- Reads one line; a blank line and a comment hold no row. -/
def ofLine? (line : String) : Option Row :=
  match Text.trimChars line.toList with
  | [] => none
  | '#' :: _ => none
  | cs =>
    match splitFields 0 cs with
    | [] => none
    | tag :: fields => some (ofFields (String.ofList tag) (fields.map String.ofList))

/-- Reads a table; each row carries the number of its line, and lines without a row count. -/
def ofTable (table : String) : List Row :=
  ((Text.splitWhere (· == '\n') table.toList).zipIdx 1).filterMap fun (line, number) =>
    (ofLine? (String.ofList line)).map fun row => { row with line := some number }

/-! ## Writing -/

/-- The line of a row: its tag and fields with a comma and a blank between them. -/
def render (row : Row) : String :=
  String.ofList (", ".toList.intercalate ((row.tag :: row.fields).map String.toList))

end Row

/-! ## Kinds of rows -/

/-- What a row of a table says, by its tag. -/
inductive RowKind where
  /-- A rule that allows or denies an action. -/
  | policy
  /-- A rule that changes the type of a process or of a new file. -/
  | transition
  /-- A role of a member, or a boolean and its default. -/
  | role
deriving DecidableEq, Repr

namespace RowKind

/-- The tag that rows of a kind carry. -/
def tag : RowKind → String
  | policy => "p"
  | transition => "p2"
  | role => "g"

/-- The kind of the rows with a tag. -/
def ofTag? (tag : String) : Option RowKind :=
  [policy, transition, role].find? (·.tag == tag)

/-- The numbers of fields that rows of a kind may have. -/
def fieldCounts : RowKind → List Nat
  | policy => [4, 5, 6]
  | transition => [4, 5]
  | role => [2]

/-- The field counts of a kind as a message lists them. -/
def fieldCountsText : RowKind → String
  | policy => "4, 5 or 6"
  | transition => "4 or 5"
  | role => "2"

end RowKind

end TypeEnforcement
