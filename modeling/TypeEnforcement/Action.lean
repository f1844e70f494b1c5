import TypeEnforcement.Canonical
import TypeEnforcement.Object
/-!
# Actions

An action of a rule stands for an object class and a list of permissions on objects of that class.
`defaults` is the table of known actions; an `ActionTable` adds overrides, which come before it. An
action that neither knows stands for the permission of its own name.

A permission on files is spelled differently on directories, so a rule that asks for the directory
class gets the permissions of `onDirectory`.
-/

namespace TypeEnforcement

/-- The object class of an action and its permissions, in order and without repetition. -/
structure ActionMeaning where
  objectClass : String
  permissions : List String
deriving DecidableEq, Repr

namespace Action

/-! ## Known actions -/

/-- The known actions. -/
def defaults : List (String × ActionMeaning) := [
  ("accept", ⟨"tcp_socket", ["accept"]⟩),
  ("add_name", ⟨"dir", ["add_name", "write"]⟩),
  ("append", ⟨"file", ["append", "open"]⟩),
  ("bind", ⟨"tcp_socket", ["bind", "name_bind"]⟩),
  ("connect", ⟨"tcp_socket", ["connect", "name_connect"]⟩),
  ("create", ⟨"file", ["create", "write", "open"]⟩),
  ("delete", ⟨"file", ["unlink"]⟩),
  ("dyntransition", ⟨"process", ["dyntransition"]⟩),
  ("entrypoint", ⟨"file", ["entrypoint"]⟩),
  ("execute", ⟨"file", ["execute", "read", "open", "getattr"]⟩),
  ("fork", ⟨"process", ["fork"]⟩),
  ("getattr", ⟨"file", ["getattr"]⟩),
  ("ioctl", ⟨"file", ["ioctl"]⟩),
  ("link", ⟨"file", ["link"]⟩),
  ("list", ⟨"dir", ["read", "search", "getattr", "open"]⟩),
  ("listen", ⟨"tcp_socket", ["listen"]⟩),
  ("lock", ⟨"file", ["lock"]⟩),
  ("map", ⟨"file", ["map"]⟩),
  ("mkdir", ⟨"dir", ["create", "add_name", "write"]⟩),
  ("name_bind", ⟨"tcp_socket", ["name_bind"]⟩),
  ("open", ⟨"file", ["open"]⟩),
  ("ptrace", ⟨"process", ["ptrace"]⟩),
  ("read", ⟨"file", ["read", "open", "getattr"]⟩),
  ("recv", ⟨"tcp_socket", ["read", "recv_msg"]⟩),
  ("recvfrom", ⟨"udp_socket", ["read", "recvfrom"]⟩),
  ("relabel", ⟨"file", ["relabelfrom", "relabelto"]⟩),
  ("remove_name", ⟨"dir", ["remove_name", "write"]⟩),
  ("rename", ⟨"file", ["rename"]⟩),
  ("rmdir", ⟨"dir", ["rmdir"]⟩),
  ("search", ⟨"dir", ["search", "getattr"]⟩),
  ("send", ⟨"tcp_socket", ["write", "send_msg"]⟩),
  ("sendto", ⟨"udp_socket", ["write", "sendto"]⟩),
  ("setattr", ⟨"file", ["setattr"]⟩),
  ("sigchld", ⟨"process", ["sigchld"]⟩),
  ("sigkill", ⟨"process", ["sigkill"]⟩),
  ("signal", ⟨"process", ["signal"]⟩),
  ("sigstop", ⟨"process", ["sigstop"]⟩),
  ("transition", ⟨"process", ["transition"]⟩),
  ("unlink", ⟨"file", ["unlink"]⟩),
  ("watch", ⟨"file", ["watch"]⟩),
  ("write", ⟨"file", ["write", "append", "open"]⟩)]

/-- The object class of a known action. -/
def defaultClass? (action : String) : Option String :=
  (defaults.lookup action).map (·.objectClass)

/-! ## Permissions on directories -/

/-- What a permission on files becomes on directories. -/
def onDirectory (permission : String) : List String :=
  match permission with
  | "create" => ["create", "add_name"]
  | "read" => ["read", "search"]
  | "unlink" => ["remove_name"]
  | "write" => ["write", "add_name", "remove_name"]
  | other => [other]

end Action

/-! ## Overrides -/

/-- Why an override is refused. -/
inductive OverrideFault where
  | emptyClass
  | noPermissions
deriving DecidableEq, Repr

namespace OverrideFault

/-- The words for a refused override. -/
def text : OverrideFault → String
  | emptyClass => "empty class"
  | noPermissions => "no permissions"

end OverrideFault

/-- The meanings that a compilation gives to some actions, the latest first. -/
structure ActionTable where
  overrides : List (String × ActionMeaning)
deriving DecidableEq, Repr

namespace ActionTable

/-- The table that knows the default actions only. -/
def standard : ActionTable :=
  { overrides := [] }

/-- An override as it is kept: class and permissions trimmed, blank permissions left out, no
permission twice. It needs a class and a permission. -/
def meaningOf (objectClass : String) (permissions : List String) :
    Except OverrideFault ActionMeaning :=
  let kept := Canonical.distinct ((permissions.map Text.trim).filter (· ≠ ""))
  if Text.trim objectClass = "" then .error .emptyClass
  else if kept = [] then .error .noPermissions
  else .ok { objectClass := Text.trim objectClass, permissions := kept }

/-- Adds an override, which replaces an earlier one of the same action. Answers whether it is
accepted, and with the table after it: a refused override leaves the table as it is. -/
def override (table : ActionTable) (action objectClass : String) (permissions : List String) :
    Except OverrideFault Unit × ActionTable :=
  match meaningOf objectClass permissions with
  | .error fault => (.error fault, table)
  | .ok meaning => (.ok (), { overrides := (action, meaning) :: table.overrides })

/-- The meaning that a table knows for an action: the override, else the default. -/
def known? (table : ActionTable) (action : String) : Option ActionMeaning :=
  (table.overrides.lookup action).or (Action.defaults.lookup action)

/-- Whether a table knows an action. -/
def knows (table : ActionTable) (action : String) : Bool :=
  (table.known? action).isSome

/-- The class that a rule asks for, if it asks for one. -/
def requested? (objectClass : Option String) : Option String :=
  (objectClass.map Text.trim).filter (· ≠ "")

/-- The meaning of an action under the class that a rule asks for. A known action keeps its
permissions under another class, except that they are respelled for directories. An unknown
action is a permission on the class asked for, or else on files. -/
def meaning (table : ActionTable) (action : String) (objectClass : Option String) :
    ActionMeaning :=
  match table.known? action, requested? objectClass with
  | none, asked =>
    { objectClass := asked.getD ObjectClass.file, permissions := [action] }
  | some base, none => base
  | some base, some asked =>
    if asked = base.objectClass then base
    else if asked = ObjectClass.directory then
      { objectClass := asked
        permissions := Canonical.distinct (base.permissions.flatMap Action.onDirectory) }
    else { base with objectClass := asked }

end ActionTable

end TypeEnforcement
