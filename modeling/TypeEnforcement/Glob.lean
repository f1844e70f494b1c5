import TypeEnforcement.Text
/-!
# From path globs to patterns

A file context names its files by a regular expression, a rule by a glob. `Glob.pattern` turns the
one into the other:

* a matched brace group `{a,b}` becomes the group `(a|b)`; groups nest, and a brace without its
  partner is a plain character;
* `/**` becomes `/.*`, and any other `*` one or more characters of a segment, `[^/]+`; right after
  a bracket class it is `[^/]*`; `?` is one character;
* `/**` at the end, and `/*` at the end of a glob without `/**`, become the optional subtree
  `(/.*)?`, or `/.*` where nothing precedes them;
* a bracket class is copied as it is, and every other character that means something in a pattern
  is escaped.

The work goes in two steps. `Glob.glyphs` finds the brace groups, so that the marks of a group
cannot be confused with parentheses of the path, and `Glob.pieces` reads the glyphs as pieces of a
pattern. Three private-use characters stand for the marks of a group in a path, too.
-/

namespace TypeEnforcement.Glob

/-! ## Glyphs: characters and marks of groups -/

/-- A character of a path or a mark of a brace group. -/
inductive Glyph where
  | char (c : Char)
  | groupOpen
  | alternative
  | groupClose
deriving DecidableEq, Repr

namespace Glyph

/-- The glyph of a character outside brace groups; three private-use characters are marks. -/
def ofChar (c : Char) : Glyph :=
  if c = '\ue000' then groupOpen
  else if c = '\ue001' then alternative
  else if c = '\ue002' then groupClose
  else char c

/-- The character of a glyph in a pattern. -/
def toChar : Glyph → Char
  | char c => c
  | groupOpen => '('
  | alternative => '|'
  | groupClose => ')'

end Glyph

/-- Whether a text closes as many brace groups as are open. -/
def closes : (depth : Nat) → List Char → Bool
  | 0, _ => true
  | _ + 1, [] => false
  | depth + 1, c :: cs =>
    closes (if c = '{' then depth + 2 else if c = '}' then depth else depth + 1) cs

/-- The glyphs of a text inside a number of brace groups. Outside all groups a brace opens one only
if it is closed later; inside, every brace and comma is a mark. -/
def glyphsWithin : (depth : Nat) → List Char → List Glyph
  | _, [] => []
  | 0, c :: cs =>
    if c = '{' ∧ closes 1 cs then .groupOpen :: glyphsWithin 1 cs
    else .ofChar c :: glyphsWithin 0 cs
  | depth + 1, c :: cs =>
    if c = '{' then .groupOpen :: glyphsWithin (depth + 2) cs
    else if c = '}' then .groupClose :: glyphsWithin depth cs
    else if c = ',' then .alternative :: glyphsWithin (depth + 1) cs
    else .ofChar c :: glyphsWithin (depth + 1) cs

/-- The glyphs of a path. -/
def glyphs (path : List Char) : List Glyph :=
  glyphsWithin 0 path

/-! ## Pieces of a pattern -/

/-- A piece of a pattern. -/
inductive Piece where
  /-- A character of the path. -/
  | literal (c : Char)
  /-- Any one character. -/
  | anyChar
  /-- One or more characters of a segment. -/
  | segmentPart
  /-- Any number of characters of a segment. -/
  | segmentRest
  /-- A separator and anything after it. -/
  | anyDepth
  /-- Nothing, or a separator and anything after it. -/
  | subtree
  /-- A glyph of a bracket class. -/
  | inBracket (glyph : Glyph)
  /-- A mark of a brace group. -/
  | mark (glyph : Glyph)
deriving DecidableEq, Repr

/-- The characters that mean something in a pattern. -/
def metacharacters : List Char :=
  ['.', '+', '(', ')', '|', '^', '$', '\x7b', '\x7d', '[', ']', '\\']

namespace Piece

/-- Writes a piece. -/
def text : Piece → List Char
  | literal c => if metacharacters.contains c then ['\\', c] else [c]
  | anyChar => ['.']
  | segmentPart => "[^/]+".toList
  | segmentRest => "[^/]*".toList
  | anyDepth => "/.*".toList
  | subtree => "(/.*)?".toList
  | inBracket glyph => [glyph.toChar]
  | mark glyph => [glyph.toChar]

end Piece

/-- How many glyphs follow an opening bracket up to the one that closes its class, if one does. A
closing bracket at the start of the class, or after its caret, is a member. -/
def bracketLength? (rest : List Glyph) : Option Nat :=
  let caret := if rest.head? = some (.char '^') then 1 else 0
  let member := if (rest.drop caret).head? = some (.char ']') then 1 else 0
  ((rest.drop (caret + member)).findIdx? (· = .char ']')).map (caret + member + · + 1)

/-- The pieces of a glob without `/**`. The first argument counts the glyphs that still belong to a
bracket class; the second says that such a class has just ended. -/
def segmentPieces : (inside : Nat) → (afterBracket : Bool) → List Glyph → List Piece
  | _, _, [] => []
  | inside + 1, _, glyph :: rest => .inBracket glyph :: segmentPieces inside (inside == 0) rest
  | 0, afterBracket, glyph :: rest =>
    match glyph with
    | .char '[' =>
      match bracketLength? rest with
      | some length => .inBracket glyph :: segmentPieces length false rest
      | none => .literal '[' :: segmentPieces 0 false rest
    | .char '*' =>
      (if afterBracket then .segmentRest else .segmentPart) :: segmentPieces 0 false rest
    | .char '?' => .anyChar :: segmentPieces 0 false rest
    | .char c => .literal c :: segmentPieces 0 false rest
    | glyph => .mark glyph :: segmentPieces 0 false rest

/-- The glyphs between the occurrences of `/**`, read from the left. -/
def splitDeep : List Glyph → List (List Glyph)
  | .char '/' :: .char '*' :: .char '*' :: rest => [] :: splitDeep rest
  | [] => [[]]
  | glyph :: rest =>
    match splitDeep rest with
    | [] => [[glyph]]
    | first :: others => (glyph :: first) :: others

/-- The pieces of glyphs of which no end stands for a subtree. -/
def innerPieces (gs : List Glyph) : List Piece :=
  [Piece.anyDepth].intercalate ((splitDeep gs).map (segmentPieces 0 false))

/-- The two spellings of a subtree at the end of a glob. -/
def subtreeTail (stars : Nat) : List Glyph :=
  .char '/' :: List.replicate stars (.char '*')

/-- What precedes the end of a glob that stands for a subtree. -/
def beforeSubtree? (gs : List Glyph) : Option (List Glyph) :=
  match Text.stripTail? (subtreeTail 2) gs with
  | some before => some before
  | none =>
    if Text.occursIn (subtreeTail 2) gs then none else Text.stripTail? (subtreeTail 1) gs

/-- The pieces of glyphs. -/
def pieces (gs : List Glyph) : List Piece :=
  match beforeSubtree? gs with
  | some [] => [.anyDepth]
  | some before => innerPieces before ++ [.subtree]
  | none => innerPieces gs

/-- Turns a glob into a pattern. -/
def pattern (path : String) : String :=
  String.ofList ((pieces (glyphs path.toList)).flatMap Piece.text)

end TypeEnforcement.Glob
