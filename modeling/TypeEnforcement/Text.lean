/-!
# Text

Cutting and comparing of text, over lists of characters. The rest of the library reads rule rows,
object patterns and settings through these few functions, so that what a field "is" never depends
on the library's own notion of white space or of a substring.

White space is the Unicode property `White_Space`, which holds more than the ASCII blanks: a
no-break space or an ideographic space at the end of a field is cut off like a plain one.
-/

namespace TypeEnforcement.Text

/-! ## White space -/

/-- The characters of the Unicode property `White_Space`. -/
def isBlank (c : Char) : Bool :=
  (0x09 ≤ c.toNat && c.toNat ≤ 0x0D) || c.toNat == 0x20 || c.toNat == 0x85 || c.toNat == 0xA0
    || c.toNat == 0x1680 || (0x2000 ≤ c.toNat && c.toNat ≤ 0x200A) || c.toNat == 0x2028
    || c.toNat == 0x2029 || c.toNat == 0x202F || c.toNat == 0x205F || c.toNat == 0x3000

/-- Cuts white space off both ends. -/
def trimChars (cs : List Char) : List Char :=
  ((cs.dropWhile isBlank).reverse.dropWhile isBlank).reverse

/-- Cuts white space off both ends of a text. -/
def trim (s : String) : String :=
  String.ofList (trimChars s.toList)

/-- Whether a text has no character other than white space. -/
def allBlank (s : String) : Bool :=
  s.toList.all isBlank

/-! ## Heads, tails and parts -/

section Parts

variable {α : Type} [DecidableEq α]

/-- What follows `head` in a list that starts with it. -/
def stripHead? : (head : List α) → List α → Option (List α)
  | [], xs => some xs
  | _ :: _, [] => none
  | h :: hs, x :: xs => if h = x then stripHead? hs xs else none

/-- What precedes `tail` in a list that ends with it. -/
def stripTail? (tail xs : List α) : Option (List α) :=
  (stripHead? tail.reverse xs.reverse).map List.reverse

/-- Whether `part` stands somewhere in a list. -/
def occursIn (part : List α) : List α → Bool
  | [] => part.isEmpty
  | x :: xs => (stripHead? part (x :: xs)).isSome || occursIn part xs

/-- Cuts a list at the first place where `mark` stands: what precedes it and what follows it. -/
def cutAt? (mark : List α) : List α → Option (List α × List α)
  | [] => (stripHead? mark []).map fun rest => ([], rest)
  | x :: xs =>
    match stripHead? mark (x :: xs) with
    | some rest => some ([], rest)
    | none => (cutAt? mark xs).map fun (before, after) => (x :: before, after)

end Parts

/-- The pieces of a list between the members that satisfy `separator`. -/
def splitWhere {α : Type} (separator : α → Bool) : List α → List (List α)
  | [] => [[]]
  | x :: xs =>
    if separator x then [] :: splitWhere separator xs
    else match splitWhere separator xs with
      | [] => [[x]]
      | piece :: pieces => (x :: piece) :: pieces

/-- Whether a text starts with `head`. -/
def startsWith (s head : String) : Bool :=
  (stripHead? head.toList s.toList).isSome

/-- Whether a text ends with `tail`. -/
def endsWith (s tail : String) : Bool :=
  (stripTail? tail.toList s.toList).isSome

/-- Whether `part` stands somewhere in a text. -/
def hasPart (s part : String) : Bool :=
  occursIn part.toList s.toList

/-- A text without the byte order mark at its start, if it has one. -/
def withoutMark (s : String) : String :=
  match s.toList with
  | '\ufeff' :: cs => String.ofList cs
  | _ => s

/-! ## Characters of names -/

/-- ASCII letters, digits and the underscore. -/
def isNameChar (c : Char) : Bool :=
  c.isAlphanum || c == '_'

/-- Whether a text has a character and all its characters are ASCII digits. -/
def isNumeral (s : String) : Bool :=
  !s.toList.isEmpty && s.toList.all Char.isDigit

/-- Lower case of the letters whose lower case is an ASCII letter; these are the ASCII letters and
the Kelvin sign. Every other character stays. -/
def lowerCase (s : String) : String :=
  String.ofList (s.toList.map fun c => if c = '\u212a' then 'k' else c.toLower)

/-- A text in single quotation marks, as messages show it. -/
def quote (s : String) : String :=
  "'" ++ s ++ "'"

end TypeEnforcement.Text
