import SafariScript.CommandLine.Run

/-!
# The program

Reads the files and the standard input, runs the command line, and writes what it gives.
-/

namespace SafariScript

/-- The bytes of the file that the arguments name, if it can be read. -/
def readNamed (arguments : List String) : IO (String → Option (List UInt8)) := do
  match CommandLine.parseArguments arguments with
  | .ok (some { file := some path, .. }) =>
    try
      let bytes ← IO.FS.readBinFile path
      return fun name => if name == path then some bytes.toList else none
    catch _ => return fun _ => none
  | _ => return fun _ => none

end SafariScript

open SafariScript

/-- Run the interpreter. -/
def main (arguments : List String) : IO UInt32 := do
  let file? ← readNamed arguments
  let stdin ← (← IO.getStdin).readToEnd
  let seed ← IO.rand 0 (Nat.pow 2 62)
  let result := CommandLine.run { file?, stdin, seed } arguments
  (← IO.getStdout).putStr result.stdout
  (← IO.getStderr).putStr result.stderr
  match result.ending with
  | .exited status => return status.toNat.toUInt32
  | .escaped _ => return 1
