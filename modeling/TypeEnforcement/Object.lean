import TypeEnforcement.Text
/-!
# Objects and object classes

The object field of a rule is classified by its shape alone: a path, a network endpoint, a port
number or a bare token. `ObjectRef.ofText` classifies and `ObjectRef.text` gives the field back.
-/

namespace TypeEnforcement

/-! ## Object classes -/

namespace ObjectClass

/-- The class of processes. -/
def process : String := "process"

/-- The class of a path of which nothing more is known. -/
def file : String := "file"

/-- The class of directories. -/
def directory : String := "dir"

/-- The classes of objects in a file system. -/
def fileLike : List String :=
  ["file", "dir", "lnk_file", "chr_file", "blk_file", "sock_file", "fifo_file"]

/-- Whether a class holds objects of a file system. -/
def isFileLike (objectClass : String) : Bool :=
  fileLike.contains objectClass

/-- Whether the permissions of a class are capabilities of the domain itself. -/
def isCapability (objectClass : String) : Bool :=
  objectClass == "capability" || objectClass == "capability2"

end ObjectClass

/-! ## Protocols -/

/-- The transport protocol of a network object. -/
inductive Protocol where
  | tcp
  | udp
deriving DecidableEq, Repr, Ord

namespace Protocol

/-- The name of a protocol. -/
def name : Protocol → String
  | tcp => "tcp"
  | udp => "udp"

/-- The class of the sockets of a protocol. -/
def socketClass : Protocol → String
  | tcp => "tcp_socket"
  | udp => "udp_socket"

/-- The protocol of a class of sockets. -/
def ofSocketClass? (objectClass : String) : Option Protocol :=
  [tcp, udp].find? (·.socketClass == objectClass)

/-- How an object with this protocol begins. -/
def scheme (protocol : Protocol) : String :=
  protocol.name ++ ":"

end Protocol

/-! ## Objects -/

/-- The object of a rule, by its shape. -/
inductive ObjectRef where
  /-- A path or a pattern of paths. -/
  | path (path : String)
  /-- A port of a protocol. -/
  | network (protocol : Protocol) (port : String)
  /-- A port number without a protocol. -/
  | port (port : String)
  /-- The name of a type or of an attribute. -/
  | token (token : String)
deriving DecidableEq, Repr

namespace ObjectRef

/-- Classifies an object: a path starts at the root, a network object with its protocol, a port
is a numeral, and all else is a token. -/
def ofText (object : String) : ObjectRef :=
  if Text.startsWith object "/" then .path object
  else match Text.stripHead? Protocol.tcp.scheme.toList object.toList with
    | some rest => .network .tcp (String.ofList rest)
    | none =>
      match Text.stripHead? Protocol.udp.scheme.toList object.toList with
      | some rest => .network .udp (String.ofList rest)
      | none => if Text.isNumeral object then .port object else .token object

/-- The field that an object stands for. -/
def text : ObjectRef → String
  | path p => p
  | network protocol n => protocol.scheme ++ n
  | port n => n
  | token name => name

/-- Whether an object is a path. -/
def isPath : ObjectRef → Bool
  | path _ => true
  | _ => false

end ObjectRef

end TypeEnforcement
