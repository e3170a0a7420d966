import ConfigTree.CommandLine.Basic
import ConfigTree.FileSystem.Listing

/-!
# The program

The command line over the files that standard input describes as JSON.
-/

open ConfigTree

def main (arguments : List String) : IO UInt32 := do
  let listing ← (← IO.getStdin).readToEnd
  match FileSystem.ofText? listing with
  | none =>
    (← IO.getStderr).putStr "error: standard input does not describe files\n"
    return 1
  | some files =>
    let outcome := CommandLine.run files arguments
    (← IO.getStdout).putStr outcome.output
    (← IO.getStderr).putStr outcome.errors
    return outcome.code.toUInt32
