/-!
# Access to files

The few operations on files that commands need, for any place where files live. A path is names between slashes.
-/

namespace Cityscape

/-- Why a file cannot be read or written. -/
inductive AccessError where
  | notFound
  | alreadyThere
  | notDirectory
  | isDirectory
  /-- A path, or a name in it, has too many bytes. -/
  | nameTooLong
  /-- A path holds a zero byte. -/
  | zeroInName
  /-- The bytes of a file are no text. -/
  | notText
  | other (message : String)
  deriving DecidableEq, Repr

/-- The wording of an error. -/
def AccessError.message : AccessError → String
  | notFound => "No such file or directory (os error 2)"
  | alreadyThere => "File exists (os error 17)"
  | notDirectory => "Not a directory (os error 20)"
  | isDirectory => "Is a directory (os error 21)"
  | nameTooLong => "File name too long (os error 36)"
  | zeroInName => "file name contained an unexpected NUL byte"
  | notText => "stream did not contain valid UTF-8"
  | other message => message

/-- A place where files live. -/
class Files (m : Type → Type) where
  read : String → m (Except AccessError ByteArray)
  /-- Writes a file, in place of what it held. -/
  write : String → ByteArray → m (Except AccessError Unit)
  /-- Makes one directory. -/
  makeDirectory : String → m (Except AccessError Unit)
  isDirectory : String → m Bool
  isThere : String → m Bool

namespace Path

/-- Whether a path begins at the root. -/
def isAbsolute (path : String) : Bool :=
  path.toList.head? = some '/'

/-- The texts between the slashes of a path. -/
def parts (path : String) : List String :=
  (path.splitOn "/").filter (· ≠ "")

/-- The names of a path; a dot counts at the beginning of a relative path only. -/
def names (path : String) : List String :=
  match parts path with
  | first :: rest =>
    if isAbsolute path then (first :: rest).filter (· ≠ ".") else first :: rest.filter (· ≠ ".")
  | [] => []

/-- Whether two paths have the same names. -/
def same (a b : String) : Bool :=
  isAbsolute a == isAbsolute b && names a == names b

/-- Whether a path holds a zero byte, which no name can. -/
def hasZero (path : String) : Bool :=
  path.toList.contains '\x00'

/-- The path with these names. -/
def ofNames (absolute : Bool) (names : List String) : String :=
  (if absolute then "/" else "") ++ "/".intercalate names

end Path

namespace Files

variable {m : Type → Type} [Monad m] [Files m]

/-- The text of a file. -/
def readText (path : String) : m (Except AccessError String) := do
  match ← Files.read path with
  | .error error => return .error error
  | .ok bytes =>
    match String.fromUTF8? bytes with
    | some text => return .ok text
    | none => return .error .notText

/-- Makes a directory and those around it, given its names from the last to the first. -/
def makeDirectories (absolute : Bool) : List String → m (Except AccessError Unit)
  | [] => return .ok ()
  | name :: parents => do
    let path := Path.ofNames absolute (name :: parents).reverse
    match ← Files.makeDirectory path with
    | .ok () => return .ok ()
    | .error .notFound =>
      match ← makeDirectories absolute parents with
      | .error error => return .error error
      | .ok () => made path (← Files.makeDirectory path)
    | .error error => made path (.error error)
where
  /-- A directory that is there already is as good as a new one. -/
  made (path : String) : Except AccessError Unit → m (Except AccessError Unit)
    | .ok () => return .ok ()
    | .error error => do
      if ← Files.isDirectory path then return .ok () else return .error error

/-- Writes a text to a file in a directory that is made if need be. -/
def writeTextInside (path text : String) : m (Except AccessError Unit) := do
  match ← makeDirectories (Path.isAbsolute path) ((Path.names path).reverse.drop 1) with
  | .error error => return .error error
  | .ok () => Files.write path text.toUTF8

end Files

end Cityscape
