import TypeEnforcement.Text
import TypeEnforcement.Toml.Document
/-!
# Reading TOML

`parse?` reads a document of tables, dotted keys, basic and literal strings, booleans, integers,
arrays, inline tables and comments. A text with anything else is no document of this kind.

Each reader takes the characters that are left and returns what it has read with the characters
after it. The readers of values call one another, and a bound on the calls, which the length of the
text gives, ends them. A key of more than `maxDepth` parts and a value nested deeper are refused.
-/

namespace TypeEnforcement.Toml

/-! ## Blanks, comments and ends of lines -/

/-- The blanks within a line. -/
def isSpace (c : Char) : Bool :=
  c == ' ' || c == '\t'

/-- Skips the blanks within a line. -/
def skipSpaces (cs : List Char) : List Char :=
  cs.dropWhile isSpace

/-- The characters of comments and strings: all but the control characters other than the tab. -/
def isPrintable (c : Char) : Bool :=
  c == '\t' || (0x20 ≤ c.toNat && c.toNat != 0x7F)

/-- Skips blanks, ends of lines and comments. Fails on a control character in a comment. -/
def skipLines : (inComment : Bool) → List Char → Option (List Char)
  | _, [] => some []
  | _, '\n' :: cs => skipLines false cs
  | _, '\r' :: '\n' :: cs => skipLines false cs
  | true, c :: cs => if isPrintable c then skipLines true cs else none
  | false, '#' :: cs => skipLines true cs
  | false, c :: cs => if isSpace c then skipLines false cs else some (c :: cs)

/-- Reads the end of a line after blanks and a comment, or the end of the text. -/
def endLine : (inComment : Bool) → List Char → Option (List Char)
  | _, [] => some []
  | _, '\n' :: cs => some cs
  | _, '\r' :: '\n' :: cs => some cs
  | true, c :: cs => if isPrintable c then endLine true cs else none
  | false, '#' :: cs => endLine true cs
  | false, c :: cs => if isSpace c then endLine false cs else none

/-! ## Strings -/

/-- The character of an escape of one letter. -/
def escape? (c : Char) : Option Char :=
  match c with
  | 'b' => some '\x08'
  | 't' => some '\t'
  | 'n' => some '\n'
  | 'f' => some '\x0c'
  | 'r' => some '\r'
  | 'e' => some '\x1b'
  | '"' => some '"'
  | '\\' => some '\\'
  | _ => none

/-- The value of a digit. -/
def digit? (c : Char) : Option Nat :=
  if c.isDigit then some (c.toNat - '0'.toNat)
  else if 'a' ≤ c ∧ c ≤ 'f' then some (c.toNat - 'a'.toNat + 10)
  else if 'A' ≤ c ∧ c ≤ 'F' then some (c.toNat - 'A'.toNat + 10)
  else none

/-- The number of digits in a base. -/
def number? (base : Nat) (digits : List Char) : Option Nat :=
  digits.foldlM (fun n c => (digit? c).bind fun d => if d < base then some (n * base + d) else none)
    0

/-- The character of a code point in hexadecimal digits. -/
def codePoint? (digits : List Char) : Option Char :=
  (number? 16 digits).bind fun n => if n.isValidChar then some (Char.ofNat n) else none

/-- Reads a basic string after its opening quotation mark. -/
def basicString : List Char → Option (List Char × List Char)
  | [] => none
  | '"' :: cs => some ([], cs)
  | '\\' :: 'x' :: a :: b :: cs => do
    let x ← codePoint? [a, b]
    let (s, rest) ← basicString cs
    return (x :: s, rest)
  | '\\' :: 'u' :: a :: b :: c :: d :: cs => do
    let x ← codePoint? [a, b, c, d]
    let (s, rest) ← basicString cs
    return (x :: s, rest)
  | '\\' :: 'U' :: a :: b :: c :: d :: e :: f :: g :: h :: cs => do
    let x ← codePoint? [a, b, c, d, e, f, g, h]
    let (s, rest) ← basicString cs
    return (x :: s, rest)
  | '\\' :: c :: cs => do
    let x ← escape? c
    let (s, rest) ← basicString cs
    return (x :: s, rest)
  | c :: cs =>
    if isPrintable c then do
      let (s, rest) ← basicString cs
      return (c :: s, rest)
    else none

/-- Reads a literal string after its opening quotation mark. -/
def literalString : List Char → Option (List Char × List Char)
  | [] => none
  | '\'' :: cs => some ([], cs)
  | c :: cs =>
    if isPrintable c then do
      let (s, rest) ← literalString cs
      return (c :: s, rest)
    else none

/-! ## Keys -/

/-- How many parts a key may have, and how deep values may nest. -/
def maxDepth : Nat := 80

/-- The characters of bare keys. -/
def isBareKeyChar (c : Char) : Bool :=
  c.isAlphanum || c == '_' || c == '-'

/-- Reads one key. -/
def key : List Char → Option (String × List Char)
  | '"' :: cs => (basicString cs).map fun (s, rest) => (String.ofList s, rest)
  | '\'' :: cs => (literalString cs).map fun (s, rest) => (String.ofList s, rest)
  | cs =>
    if (cs.takeWhile isBareKeyChar).isEmpty then none
    else some (String.ofList (cs.takeWhile isBareKeyChar), cs.dropWhile isBareKeyChar)

/-- Reads keys with points between them, at most a number of them. -/
def keys : (bound : Nat) → List Char → Option (List String × List Char)
  | 0, _ => none
  | bound + 1, cs => do
    let (first, rest) ← key (skipSpaces cs)
    match skipSpaces rest with
    | '.' :: rest => do
      let (others, rest) ← keys bound rest
      return (first :: others, rest)
    | rest => return ([first], rest)

/-! ## Values -/

/-- The digits of a number with single underscores between them, the underscores left out. -/
def plainDigits? : (afterDigit : Bool) → List Char → Option (List Char)
  | afterDigit, [] => if afterDigit then some [] else none
  | afterDigit, '_' :: cs => if afterDigit ∧ ¬ cs.isEmpty then plainDigits? false cs else none
  | _, c :: cs => (plainDigits? true cs).map (c :: ·)

/-- A decimal numeral without a sign; only zero starts with the digit zero. -/
def decimal? (cs : List Char) : Option Nat :=
  match cs with
  | '0' :: _ :: _ => none
  | _ => (plainDigits? false cs).bind (number? 10)

/-- The value of a word: a boolean or an integer. -/
def word? (cs : List Char) : Option Value :=
  match cs with
  | ['t', 'r', 'u', 'e'] => some (.boolean true)
  | ['f', 'a', 'l', 's', 'e'] => some (.boolean false)
  | '0' :: 'x' :: ds => ((plainDigits? false ds).bind (number? 16)).map fun n => .integer n
  | '0' :: 'o' :: ds => ((plainDigits? false ds).bind (number? 8)).map fun n => .integer n
  | '0' :: 'b' :: ds => ((plainDigits? false ds).bind (number? 2)).map fun n => .integer n
  | '-' :: ds => (decimal? ds).map fun n => .integer (-n)
  | '+' :: ds => (decimal? ds).map fun n => .integer n
  | ds => (decimal? ds).map fun n => .integer n

/-- The characters of words. -/
def isWordChar (c : Char) : Bool :=
  isBareKeyChar c || c == '+'

mutual

/-- Reads a value that nests at most `depth` deep. -/
def value : (bound depth : Nat) → List Char → Option (Value × List Char)
  | 0, _, _ => none
  | bound + 1, depth, cs =>
    match cs, depth with
    | '"' :: cs, _ => (basicString cs).map fun (s, rest) => (.text (String.ofList s), rest)
    | '\'' :: cs, _ => (literalString cs).map fun (s, rest) => (.text (String.ofList s), rest)
    | '[' :: cs, depth + 1 => (members bound depth cs).map fun (vs, rest) => (.array vs, rest)
    | '\x7b' :: cs, depth + 1 =>
      (assignments bound depth .empty cs).map fun (document, rest) =>
        (.table document.entries, rest)
    | cs, _ => (word? (cs.takeWhile isWordChar)).map (·, cs.dropWhile isWordChar)

/-- Reads the members of an array after its opening bracket or a comma. -/
def members : (bound depth : Nat) → List Char → Option (List Value × List Char)
  | 0, _, _ => none
  | bound + 1, depth, cs => do
    match ← skipLines false cs with
    | ']' :: rest => return ([], rest)
    | cs => do
      let (first, rest) ← value bound depth cs
      match ← skipLines false rest with
      | ']' :: rest => return ([first], rest)
      | ',' :: rest => do
        let (others, rest) ← members bound depth rest
        return (first :: others, rest)
      | _ => none

/-- Reads the assignments of an inline table after its opening brace or a comma. -/
def assignments : (bound depth : Nat) → Document → List Char → Option (Document × List Char)
  | 0, _, _, _ => none
  | bound + 1, depth, document, cs => do
    match ← skipLines false cs with
    | '\x7d' :: rest => return (document, rest)
    | cs => do
      let (path, rest) ← keys maxDepth cs
      match rest with
      | '=' :: rest => do
        let (v, rest) ← value bound depth (skipSpaces rest)
        let document ← document.assign [] path v
        match ← skipLines false rest with
        | '\x7d' :: rest => return (document, rest)
        | ',' :: rest => assignments bound depth document rest
        | _ => none
      | _ => none

end

/-! ## Documents -/

/-- Reads the lines of a document below the header of a table. -/
def lines : (bound : Nat) → Document → (table : List String) → List Char → Option Document
  | 0, _, _, _ => none
  | bound + 1, document, table, cs => do
    match ← skipLines false cs with
    | [] => return document
    | '[' :: cs => do
      let (path, rest) ← keys maxDepth cs
      match rest with
      | ']' :: rest => do
        let rest ← endLine false rest
        lines bound (← document.openTable path) path rest
      | _ => none
    | cs => do
      let (path, rest) ← keys maxDepth cs
      match rest with
      | '=' :: rest => do
        let (v, rest) ← value (rest.length + 1) maxDepth (skipSpaces rest)
        let rest ← endLine false rest
        lines bound (← document.assign table path v) table rest
      | _ => none

/-- Reads a document. A byte order mark at its start is no part of it. -/
def parse? (text : String) : Option Entries :=
  let cs := (Text.withoutMark text).toList
  (lines (cs.length + 1) .empty [] cs).map (·.entries)

end TypeEnforcement.Toml
