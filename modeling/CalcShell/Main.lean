import CalcShell.CommandLine

/-!
# The program

Reads the script or the standard input, runs the session and writes what it leaves.
-/

namespace CalcShell

/-- The bytes of a file, or why there are none. -/
def readScript (path : String) : IO (Except String (List UInt8)) := do
  try
    return .ok (← IO.FS.readBinFile path).toList
  catch
  | .noFileOrDirectory .. => return .error CommandLine.noSuchFile
  | e => return .error (toString e)

/-- Runs the program on the words of its command line. -/
def runProgram (args : List String) : IO UInt32 := do
  let script ← match CommandLine.parse args with
    | .run { script := some path, .. } => readScript path
    | _ => pure (.error CommandLine.noSuchFile)
  let input ← match CommandLine.parse args with
    | .run { script := none, .. } => do
      let stdin ← IO.getStdin
      pure (← stdin.readBinToEnd).toList
    | _ => pure []
  let finished := CommandLine.run args (fun _ => script) input
  (← IO.getStdout).putStr finished.output
  (← IO.getStderr).putStr finished.errors
  return UInt32.ofNat finished.code

end CalcShell

/-- The program. -/
def main (args : List String) : IO UInt32 := CalcShell.runProgram args
