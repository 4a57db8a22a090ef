import LslFront.Command

/-!
# The program

Looks at files for a command, which itself is a pure function.  The command says which path it has
to know about; the path is looked at and the command is run again, until it has its report.
-/

namespace LslFront

/-- What a path leads to.  A directory is known by the code of the error that reading it gives; a
    path that reading takes for no argument at all has a name that is too long. -/
def lookAt (path : String) : IO (Except ReadFailure FileNode) := do
  match ← (IO.FS.readBinFile path).toBaseIO with
  | .ok bytes => return .ok (.file (String.fromUTF8? bytes))
  | .error (.inappropriateType _ 21 _) => return .ok .directory
  | .error (.inappropriateType ..) => return .error .notDirectory
  | .error (.invalidArgument ..) => return .error .nameTooLong
  | .error (.permissionDenied ..) => return .error .forbidden
  | .error _ => return .error .missing

/-- Run a command, looking at paths as it asks for them. -/
partial def runLooking (known : List (String × Except ReadFailure FileNode))
    (environment : List (String × String)) (args : List String) : IO Report := do
  let view : FileView := fun path => (known.lookup path).getD (.error (.unseen path))
  match run view environment args with
  | .ok report => return report
  | .error path => runLooking ((path, ← lookAt path) :: known) environment args

def readEnvironment : IO (List (String × String)) := do
  let names := ["XDG_CONFIG_HOME", "HOME"]
  names.filterMapM fun name => return (← IO.getEnv name).map (name, ·)

end LslFront

def main (args : List String) : IO UInt32 := do
  let report ← LslFront.runLooking [] (← LslFront.readEnvironment) args
  IO.print report.out
  IO.eprint report.err
  return report.code.toUInt32
