import CrossMesh.Config.Reader

/-!
# Settings files

Loads settings from a file.  The file system is a function that finds what stands at a path.
-/

namespace CrossMesh

/-- What stands at a path. -/
inductive FileNode
  | file (bytes : ByteArray)
  | directory

/-- Why a file could not be read as text. -/
inductive FileError
  | notFound
  | isDirectory
  /-- The path has a NUL character. -/
  | invalidPath
  /-- The content is not UTF-8. -/
  | invalidText
  deriving DecidableEq

def FileError.message : FileError → String
  | notFound => "No such file or directory (os error 2)"
  | isDirectory => "Is a directory (os error 21)"
  | invalidPath => "file name contained an unexpected NUL byte"
  | invalidText => "stream did not contain valid UTF-8"

/-- The text of the file at a path. -/
def fileText (find : String → Option FileNode) (path : String) : Except FileError String :=
  if '\x00' ∈ path.toList then .error .invalidPath
  else
    match find path with
    | none => .error .notFound
    | some .directory => .error .isDirectory
    | some (.file bytes) =>
      match String.fromUTF8? bytes with
      | some text => .ok text
      | none => .error .invalidText

inductive ConfigError
  | unreadable (path : String) (e : FileError)
  | invalid (e : Json.ReadError)

/-- What is wrong.  A text that is not JSON is reported without a message. -/
def ConfigError.message? : ConfigError → Option String
  | unreadable path e => some ("failed to read reshard config " ++ path ++ ": " ++ e.message)
  | invalid e => e.message?.map ("invalid reshard config: " ++ ·)

namespace Config

/-- Reads settings from a text. -/
def ofText (text : String) : Except ConfigError Config := (read text).mapError .invalid

/-- Reads settings from the file at a path. -/
def load (find : String → Option FileNode) (path : String) : Except ConfigError Config :=
  match fileText find path with
  | .error e => .error (.unreadable path e)
  | .ok text => ofText text

end Config

end CrossMesh
