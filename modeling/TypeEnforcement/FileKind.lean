import TypeEnforcement.Text
/-!
# Kinds of files

The kind of file that a file context labels. `FileKind.ofPath` infers it from the spelling of a
path; a `FileKindTable` holds the paths whose kind is given, which comes before the inference.
-/

namespace TypeEnforcement

/-- A kind of files; `all` stands for files of every kind. -/
inductive FileKind where
  | all
  | regular
  | directory
  | charDevice
  | blockDevice
  | socket
  | symlink
  | pipe
deriving DecidableEq, Repr, Ord

namespace FileKind

/-- All kinds, in order. -/
def kinds : List FileKind :=
  [all, regular, directory, charDevice, blockDevice, socket, symlink, pipe]

/-- The words for a kind. -/
def name : FileKind → String
  | all => "all files"
  | regular => "regular file"
  | directory => "directory"
  | charDevice => "character device"
  | blockDevice => "block device"
  | socket => "socket"
  | symlink => "symbolic link"
  | pipe => "named pipe"

/-- The flag of a kind in a file context; files of every kind have none. -/
def flag : FileKind → String
  | all => ""
  | regular => "--"
  | directory => "-d"
  | charDevice => "-c"
  | blockDevice => "-b"
  | socket => "-s"
  | symlink => "-l"
  | pipe => "-p"

/-- Reads the words for a kind or its flag. -/
def ofText? (text : String) : Option FileKind :=
  let text := Text.trim text
  kinds.find? fun kind => kind.name == text || (text != "" && kind.flag == text)

/-! ## Inference -/

/-- How the names of block devices start. -/
def blockDeviceNames : List String :=
  ["sd", "hd", "vd", "nvme", "loop", "dm-"]

/-- Parts of the paths of sockets. -/
def socketDirectories : List String :=
  ["/.X11-unix/", "/run/dbus/", "/var/run/dbus/", "/run/systemd/journal/"]

/-- How the names of sockets end. -/
def socketEndings : List String :=
  [".sock", ".socket"]

/-- How the names of regular files end. -/
def regularEndings : List String :=
  [".cfg", ".conf", ".crt", ".css", ".db", ".htm", ".html", ".ini", ".js", ".json", ".key",
    ".lock", ".log", ".pem", ".pid", ".py", ".service", ".sh", ".so", ".timer", ".txt", ".xml",
    ".yaml", ".yml"]

/-- The kind of a device, by the parts of its path below the directory of devices. -/
def ofDevice (path : List Char) : FileKind :=
  if (Text.splitWhere (· == '/') path).any fun part =>
      blockDeviceNames.any fun name => (Text.stripHead? name.toList part).isSome then
    blockDevice
  else charDevice

/-- The kind of files that a path stands for. -/
def ofPath (path : String) : FileKind :=
  if Text.endsWith path "/" then directory
  else if Text.endsWith path "/*" then all
  else
    match Text.stripHead? "/dev/".toList path.toList with
    | some device => ofDevice device
    | none =>
      if socketEndings.any (Text.endsWith path) || socketDirectories.any (Text.hasPart path) then
        socket
      else if regularEndings.any (Text.endsWith path) then regular
      else all

end FileKind

/-- The kinds that a compilation gives to some paths, the latest first. -/
structure FileKindTable where
  entries : List (String × FileKind)
deriving DecidableEq, Repr

namespace FileKindTable

/-- The table that gives no kind. -/
def empty : FileKindTable :=
  { entries := [] }

/-- Gives a path a kind, which replaces an earlier one. -/
def insert (table : FileKindTable) (path : String) (kind : FileKind) : FileKindTable :=
  { entries := (path, kind) :: table.entries }

/-- The kind of a path: the given one, else the inferred one. -/
def kindOf (table : FileKindTable) (path : String) : FileKind :=
  (table.entries.lookup path).getD (.ofPath path)

end FileKindTable

end TypeEnforcement
