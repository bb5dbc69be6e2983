import ClientPlan.CommandLine.Outcome

/-!
# The command

Reads the files of an invocation, carries it out and writes what it says.
-/

namespace ClientPlan

/-- An error with a number of the system, which some calls report negated. -/
def FileError.ofCode (details : String) (code : UInt32) : FileError :=
  .ofNumber details code.toInt32.toInt.natAbs

/-- What the operating system says about a file. -/
def FileError.ofIO : IO.Error → FileError
  | .noFileOrDirectory _ code details => .ofCode details code
  | .permissionDenied _ code details => .ofCode details code
  | .inappropriateType _ code details => .ofCode details code
  | .invalidArgument _ code details => .ofCode details code
  | .otherError code details => .ofCode details code
  | error => .system (toString error) 5

/-- The text of a file. -/
def readText (path : String) : IO (Except FileError String) := do
  try
    return textOfBytes (← IO.FS.readBinFile path)
  catch error =>
    return .error (.ofIO error)

end ClientPlan

open ClientPlan in
/-- Runs the command. -/
def main (arguments : List String) : IO UInt32 := do
  let invocation := Invocation.ofArguments arguments
  let files ← invocation.paths.mapM fun path => return (path, ← readText path)
  let read : FileReader := fun path => (files.lookup path).getD (.error .notFound)
  let outcome := invocation.outcome read
  IO.print outcome.output
  IO.eprint outcome.errors
  return outcome.code.toUInt32
