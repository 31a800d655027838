import Offside.Check

/-!
# The command line

Reads the file that the command names and prints the report.
-/

namespace Offside

def usage : String :=
  "Usage: offside check <PATH> [--strict] [--tokens] [--ast]\n"

def ReadFault.ofError : IO.Error → ReadFault
  | .noFileOrDirectory _ _ _ => .missing
  | .inappropriateType _ 21 _ => .directory
  | .permissionDenied _ _ _ => .denied
  | e => .other (toString e)

def readSource (path : String) : IO (Except ReadFault String) := do
  try
    return decodeSource (← IO.FS.readBinFile path)
  catch e => return .error (ReadFault.ofError e)

end Offside

def main (args : List String) : IO UInt32 := do
  match Offside.CheckCommand.ofArguments? args with
  | none =>
      IO.eprint Offside.usage
      return 2
  | some command =>
      let report := Offside.check command.options command.path
        (← Offside.readSource command.path)
      IO.print report.output
      IO.eprint report.errors
      return report.code.toUInt32
