import Cityscape.Files

/-!
# A file tree as a value

Files and directories by the names that lead to them from the root. Operations answer as a file system does: whatever
stands before the last name of a path has to be a directory, and names have a bounded length. Relative paths begin at
a working directory, around which there is only what every machine has.
-/

namespace Cityscape

/-- What stands at a path. -/
inductive Entry where
  | file (content : ByteArray)
  | directory

/-- Files and directories by their names, outermost first, besides those that are always there. -/
structure Directory where
  entries : List (List String × Entry) := []

namespace Directory

/-- Where relative paths begin. -/
def working : List String := ["work"]

/-- The bytes that a name may have. -/
def longestName : Nat := 255

/-- The bytes that a path may have. -/
def longestPath : Nat := 4095

/-- What is always there; the null device stays empty, whatever is written to it. -/
def standing : List (List String × Entry) :=
  [([], .directory), (working, .directory), (["tmp"], .directory), (["dev"], .directory),
    (["dev", "null"], .file .empty)]

/-- What stands at the end of some names. -/
def find? (directory : Directory) (names : List String) : Option Entry :=
  standing.lookup names <|> directory.entries.lookup names

/-- Puts something at the end of some names. -/
def put (directory : Directory) (names : List String) (entry : Entry) : Directory :=
  ⟨(names, entry) :: directory.entries.filter (·.1 ≠ names)⟩

/-- Puts something at a relative path, and directories before it. -/
def putInside (directory : Directory) (path : String) (entry : Entry) : Directory :=
  let names := working ++ Path.names path
  let parents := ((List.range names.length).drop 1).map names.take
  (parents.foldl (fun directory parent ↦
    if (directory.find? parent).isSome then directory else directory.put parent .directory)
    directory).put names entry

/-- Follows names from a directory; what is passed on the way has to be a directory. -/
def follow (directory : Directory) (here : List String) : List String → Except AccessError (List String)
  | [] => .ok here
  | name :: rest =>
    match directory.find? here with
    | none => .error .notFound
    | some (.file _) => .error .notDirectory
    | some .directory =>
      if longestName < name.utf8ByteSize then .error .nameTooLong
      else if name = "." then directory.follow here rest
      else if name = ".." then directory.follow here.dropLast rest
      else directory.follow (here ++ [name]) rest

/-- Whether a path ends in a slash, and so asks for a directory. -/
def endsInSlash (path : String) : Bool :=
  path.toList.getLast? = some '/'

/-- Follows parts of a path from where the path begins, if it is a path at all. -/
def enter (directory : Directory) (path : String) (parts : List String) : Except AccessError (List String) :=
  if Path.hasZero path then .error .zeroInName
  else if path.isEmpty then .error .notFound
  else if longestPath < path.utf8ByteSize then .error .nameTooLong
  else directory.follow (if Path.isAbsolute path then [] else working) parts

/-- The names that a path leads to. -/
def locate (directory : Directory) (path : String) : Except AccessError (List String) :=
  directory.enter path (Path.parts path)

/-- What stands at a path. -/
def entry (directory : Directory) (path : String) : Except AccessError Entry := do
  match directory.find? (← directory.locate path) with
  | some (.file content) => if endsInSlash path then .error .notDirectory else .ok (.file content)
  | some .directory => .ok .directory
  | none => .error .notFound

/-- The bytes of a file. -/
def read (directory : Directory) (path : String) : Except AccessError ByteArray := do
  match ← directory.entry path with
  | .file content => .ok content
  | .directory => .error .isDirectory

/-- The directory after a file was written; a slash at the end is refused before the name in front of it is tried. -/
def write (directory : Directory) (path : String) (content : ByteArray) :
    Except AccessError Directory := do
  if endsInSlash path then
    let _ ← directory.enter path ((Path.parts path).dropLast ++ ["."])
    .error .isDirectory
  else
    let names ← directory.locate path
    match directory.find? names with
    | some .directory => .error .isDirectory
    | _ => .ok (directory.put names (.file content))

/-- The directory after another one was made in it. -/
def make (directory : Directory) (path : String) : Except AccessError Directory := do
  let names ← directory.locate path
  match directory.find? names with
  | some _ => .error .alreadyThere
  | none => .ok (directory.put names .directory)

/-- Carries out a change, if it is possible. -/
def change (result : Directory → Except AccessError Directory) :
    StateM Directory (Except AccessError Unit) := do
  match result (← get) with
  | .ok directory =>
    set directory
    return .ok ()
  | .error error => return .error error

end Directory

instance : Files (StateM Directory) where
  read path := do return (← get).read path
  write path content := Directory.change (·.write path content)
  makeDirectory path := Directory.change (·.make path)
  isDirectory path := do return match (← get).entry path with
    | .ok .directory => true
    | _ => false
  isThere path := do return match (← get).entry path with
    | .ok _ => true
    | .error _ => false

end Cityscape
