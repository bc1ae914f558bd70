/-
The command as a program: it looks at the files that the command line names,
prints what the command writes and reports, and ends with its status.
-/
import Bracemark.CommandLine

set_option autoImplicit false

open Bracemark

/-- What is found under the name of a file. -/
def lookUp (name : String) : IO FileContent := do
  try
    return .ofBytes (← IO.FS.readBinFile name)
  catch e =>
    return match e with
      | .inappropriateType _ 21 _ => .directory
      | .inappropriateType .. => .pastFile
      | .permissionDenied .. => .denied
      | _ => .missing

def main (arguments : List String) : IO UInt32 := do
  let named : List String := match Request.ofArguments arguments with
    | .document i =>
      i.path :: i.config.toList ++ (i.config.bind CommandLine.extendedName?).toList
    | _ => []
  let found ← named.mapM fun name => do return (name, ← lookUp name)
  let files : Files := fun name => (found.lookup name).getD .missing
  let outcome := CommandLine.run files arguments
  IO.print outcome.output
  IO.eprint outcome.report
  return outcome.status.toUInt32
