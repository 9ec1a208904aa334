-- SUMMARY: The program: reads the arguments and the file, writes the output.
import HostExpr.CommandLine

/-!
# The program

Reads the file that the arguments name, if any, and leaves the rest to `CommandLine.run`.
-/

/-- Runs the command line. -/
def main (args : List String) : IO UInt32 := do
  let file ← match HostExpr.CommandLine.Options.ofArguments? args with
    | some { fromFile := true, text := some name, .. } =>
      try some <$> IO.FS.readFile name catch _ => pure none
    | _ => pure none
  let output := HostExpr.CommandLine.run args fun _ => file
  IO.print output.out
  IO.eprint output.err
  return output.code.toUInt32
