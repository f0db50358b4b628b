import ChannelMachine.CommandLine

/-!
# The program

Reads the arguments, the environment and the file, and writes the response.
-/

namespace ChannelMachine.CommandLine

/-- Reads a text file. -/
def readText (path : String) : IO (Except ReadFailure String) := do
  try
    return textOf (← IO.FS.readBinFile path)
  catch
    | .noFileOrDirectory .. => return .error .missing
    | e => return .error (.other (toString e))

/-- Eight random bytes as a number. -/
def readEntropy : IO UInt64 := do
  let bytes ← IO.getRandomBytes 8
  return bytes.foldl (fun n b => n * 256 + b.toUInt64) 0

end ChannelMachine.CommandLine

open ChannelMachine.CommandLine in
/-- Does what the arguments ask for. -/
def main (arguments : List String) : IO UInt32 := do
  let response ←
    match plan arguments with
    | .error failure => pure failure.response
    | .ok job => do
        let tracing := ((← IO.getEnv "GVM_TRACE").map asksForTrace).getD false
        pure (job.perform tracing (← readEntropy) (← readText job.path))
  let output ← IO.getStdout
  output.putStr response.output
  output.flush
  let errors ← IO.getStderr
  errors.putStr response.errors
  errors.flush
  return response.code
