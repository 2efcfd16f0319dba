import Cityscape.Command

/-!
# The program

Runs a command on the files of the machine and prints its report.
-/

namespace Cityscape

/-- The error of access behind an error of the system. -/
def AccessError.ofSystem : IO.Error → AccessError
  | .noFileOrDirectory .. => .notFound
  | .alreadyExists .. => .alreadyThere
  | .inappropriateType _ 21 _ => .isDirectory
  | .inappropriateType _ 20 _ => .notDirectory
  | .invalidArgument _ 36 _ => .nameTooLong
  | error => .other (toString error)

/-- Carries out an action on a path and keeps its error. -/
def attempt {α : Type} (path : String) (action : IO α) : IO (Except AccessError α) := do
  if Path.hasZero path then return .error .zeroInName
  try
    return .ok (← action)
  catch error => return .error (.ofSystem error)

/-- Whether a path leads to a directory of the machine. -/
def isMachineDirectory (path : String) : IO Bool := do
  try
    (← IO.FS.realPath path).isDir
  catch _ => return false

/-- Whether a path leads to anything on the machine. -/
def isOnMachine (path : String) : IO Bool := do
  try
    (← IO.FS.realPath path).pathExists
  catch _ => return false

instance : Files IO where
  read path := attempt path (IO.FS.readBinFile path)
  write path content := attempt path (IO.FS.writeBinFile path content)
  makeDirectory path := attempt path (IO.FS.createDir path)
  isDirectory := isMachineDirectory
  isThere := isOnMachine

end Cityscape

/-- Runs the command that the arguments name. -/
def main (arguments : List String) : IO UInt32 := do
  let home := (← IO.getEnv "HOME").getD "."
  let report ← Cityscape.runArguments home arguments
  (← IO.getStdout).putStr report.out
  (← IO.getStderr).putStr report.err
  return report.code
