import TypeEnforcement.Text
import TypeEnforcement.Toml
/-!
# Places of settings

A key at the root of a source of settings may be a path: names with points between them, each with
subscripts after it where it names an array, as in `module.name` or `actions.serve.permissions[0]`.
`placeOf` gives the steps to the place that a key names. A key that is no path names the place of
its own text.
-/

namespace TypeEnforcement.Settings

/-! ## Integers -/

/-- The least integer of settings. -/
def leastInteger : Int := -Int.pow 2 63

/-- The first integer that is too great for settings. -/
def integerLimit : Int := Int.pow 2 63

/-- The number that decimal digits write. -/
def natural? (cs : List Char) : Option Int :=
  if cs.isEmpty || cs.any (! ·.isDigit) then none
  else some (Nat.ofDigitChars 10 cs 0)

/-- The integer that decimal digits write after an optional minus sign, if it is in range. -/
def integer? (cs : List Char) : Option Int :=
  (match cs with
    | '-' :: digits => (natural? digits).map (- ·)
    | digits => natural? digits).filter fun n => leastInteger ≤ n && n < integerLimit

/-! ## Paths -/

/-- The characters of the names in a path. -/
def isPathChar (c : Char) : Bool :=
  Text.isNameChar c || c == '-'

/-- The blanks that may stand around an index. -/
def isPadding (c : Char) : Bool :=
  c == ' ' || c == '\t'

/-- Reads a subscript after its opening bracket: an index and the closing bracket. -/
def subscript? (cs : List Char) : Option Toml.Step :=
  (Text.stripTail? [']'] cs).bind fun padded =>
    (integer? ((padded.dropWhile isPadding).reverse.dropWhile isPadding).reverse).map .index

/-- Reads a name and the subscripts after it. -/
def segment? (cs : List Char) : Option (List Toml.Step) :=
  match Text.splitWhere (· == '[') (cs.dropWhile isPathChar) with
  | [] :: subscripts =>
    if (cs.takeWhile isPathChar).isEmpty then none
    else (subscripts.mapM subscript?).map (.key (String.ofList (cs.takeWhile isPathChar)) :: ·)
  | _ => none

/-- The steps to the place that a key at the root of a source names. -/
def placeOf (key : String) : List Toml.Step :=
  (((Text.splitWhere (· == '.') key.toList).mapM segment?).map List.flatten).getD [.key key]

end TypeEnforcement.Settings
