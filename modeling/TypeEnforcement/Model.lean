import TypeEnforcement.Text
/-!
# Model definitions

A model says how requests are matched against a table: what a request and a policy row are made
of, how roles relate, and the expressions that match and decide. Each section maps names to
expressions. `Model.check` looks for the four entries that a compilation needs, section by
section, and reports the first that is missing or blank.
-/

namespace TypeEnforcement

/-- The sections of a model, each a list of named expressions. -/
structure Model where
  requestDefinition : List (String × String)
  policyDefinition : List (String × String)
  roleDefinition : List (String × String)
  matchers : List (String × String)
  policyEffect : List (String × String)
deriving DecidableEq, Repr

/-- What is wrong with a model. -/
inductive ModelError where
  | emptySection (name : String)
  | missingEntry (name entry : String)
  | blankExpression (name entry : String)
deriving DecidableEq, Repr

namespace ModelError

/-- The words for a faulty model. -/
def message : ModelError → String
  | emptySection name => "model section " ++ Text.quote name ++ " is empty"
  | missingEntry name entry =>
    "model section " ++ Text.quote name ++ " has no " ++ Text.quote entry ++ " entry"
  | blankExpression name entry =>
    "model expression " ++ Text.quote (name ++ "." ++ entry) ++ " is empty"

end ModelError

namespace Model

/-- The model that rule tables are written against. -/
def standard : Model where
  requestDefinition := [("r", "sub, obj, act")]
  policyDefinition := [("p", "sub, obj, act, cls, eft"), ("p2", "sub, obj, act, eft")]
  roleDefinition := [("g", "_, _")]
  matchers := [("m", "g(r.sub, p.sub) && keyMatch(r.obj, p.obj) && r.act == p.act")]
  policyEffect := [("e", "some(where (p.eft == allow)) && !some(where (p.eft == deny))")]

/-- Checks that a section has an entry whose expression is not blank. -/
def checkSection (name entry : String) (expressions : List (String × String)) :
    Except ModelError Unit :=
  if expressions.isEmpty then .error (.emptySection name)
  else
    match expressions.lookup entry with
    | none => .error (.missingEntry name entry)
    | some expression =>
      if Text.allBlank expression then .error (.blankExpression name entry) else .ok ()

/-- Checks the entries that a compilation needs. -/
def check (model : Model) : Except ModelError Unit := do
  checkSection "request_definition" "r" model.requestDefinition
  checkSection "policy_definition" "p" model.policyDefinition
  checkSection "matchers" "m" model.matchers
  checkSection "policy_effect" "e" model.policyEffect

end Model

end TypeEnforcement
