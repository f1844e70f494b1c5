import TypeEnforcement.Rule
/-!
# Well-formed rules

A rule is accepted if its required fields are not empty, its effect is a known one (or its new type
is given), and its object is spelled from the accepted characters in one of the accepted shapes.
The extended spelling also accepts brace groups, character classes and network objects. The first
fault is reported, fields before the effect and the effect before the object.
-/

namespace TypeEnforcement

/-! ## Errors -/

/-- What is wrong with the object of a rule. -/
inductive ObjectFault where
  | forbiddenChar (c : Char)
  | unknownShape
deriving DecidableEq, Repr

namespace ObjectFault

/-- The words for a faulty object. -/
def text : ObjectFault → String
  | forbiddenChar c => "character " ++ Text.quote (String.singleton c) ++ " is not allowed"
  | unknownShape =>
    "expected an absolute path, an identifier containing '_' or a port number"

end ObjectFault

/-- What is wrong with a rule. -/
inductive RuleError where
  | emptyField (rule field : String)
  | unknownEffect (rule effect : String)
  | badObject (rule object : String) (fault : ObjectFault)
deriving DecidableEq, Repr

namespace RuleError

/-- The words for a faulty rule. -/
def message : RuleError → String
  | emptyField rule field => "rule [" ++ rule ++ "]: field " ++ Text.quote field ++ " is empty"
  | unknownEffect rule effect =>
    "rule [" ++ rule ++ "]: invalid effect " ++ Text.quote effect
      ++ ", expected 'allow' or 'deny'"
  | badObject rule object fault =>
    "rule [" ++ rule ++ "]: invalid object " ++ Text.quote object ++ ": " ++ fault.text

end RuleError

/-! ## Spelling of objects -/

namespace Object

/-- The punctuation of plain objects. -/
def punctuation : List Char :=
  ['/', '*', '.', '-', '_', '?', '=']

/-- The punctuation that the extended spelling adds. -/
def extendedPunctuation : List Char :=
  ['\x7b', '\x7d', ',', '[', ']', '^', ':']

/-- The characters of objects. -/
def accepts (extended : Bool) (c : Char) : Bool :=
  c.isAlphanum || punctuation.contains c || (extended && extendedPunctuation.contains c)

/-- Whether an object is a protocol and a port number. -/
def isEndpoint (object : String) : Bool :=
  [Protocol.tcp, Protocol.udp].any fun protocol =>
    match Text.stripHead? protocol.scheme.toList object.toList with
    | some port => Text.isNumeral (String.ofList port)
    | none => false

/-- Whether an object is an identifier that contains an underscore. -/
def isIdentifier (object : String) : Bool :=
  object.toList.contains '_' && object.toList.all Text.isNameChar

/-- Whether an object has one of the accepted shapes. -/
def hasShape (extended : Bool) (object : String) : Bool :=
  Text.startsWith object "/" || isIdentifier object || object.toList.all Char.isDigit
    || (extended && isEndpoint object)

/-- The fault of an object, if it has one. -/
def fault? (extended : Bool) (object : String) : Option ObjectFault :=
  match object.toList.find? (! accepts extended ·) with
  | some c => some (.forbiddenChar c)
  | none => if hasShape extended object then none else some .unknownShape

end Object

/-! ## Rules -/

namespace Rule

/-- The fields that no rule may leave empty, in the order in which they are looked at. -/
def requiredFields (rule : Rule) : List (String × String) :=
  [("subject", rule.subject), ("object", rule.object), ("action", rule.action),
    ("class", rule.objectClass)]

/-- Checks that no required field is empty. -/
def checkFields (rule : Rule) : Except RuleError Unit :=
  match rule.requiredFields.find? (·.2 == "") with
  | some (field, _) => .error (.emptyField rule.describe field)
  | none => .ok ()

/-- Checks the effect; where a rule changes a type, that the new type is given. -/
def checkEffect (rule : Rule) : Except RuleError Unit :=
  if rule.transition.isSome then
    if rule.effect = "" then .error (.emptyField rule.describe "new_type") else .ok ()
  else if rule.effect?.isNone then .error (.unknownEffect rule.describe rule.effect)
  else .ok ()

/-- Checks the object. -/
def checkObject (extended : Bool) (rule : Rule) : Except RuleError Unit :=
  match Object.fault? extended rule.object with
  | some fault => .error (.badObject rule.describe rule.object fault)
  | none => .ok ()

/-- Checks a rule. -/
def check (extended : Bool) (rule : Rule) : Except RuleError Unit := do
  rule.checkFields
  rule.checkEffect
  rule.checkObject extended

end Rule

end TypeEnforcement
