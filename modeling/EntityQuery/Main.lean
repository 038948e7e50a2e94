import EntityQuery.CommandLine.Run

/-!
# The program

Connects the command line to the arguments and the standard streams of the process.
-/

namespace EntityQuery.CommandLine

partial def readAll (stream : IO.FS.Stream) (bytes : ByteArray) : IO ByteArray := do
  let chunk ← stream.read 65536
  if chunk.isEmpty then return bytes else readAll stream (bytes ++ chunk)

/-- Standard input, if the arguments need it and it is no terminal. -/
def standardInput (args : List String) : IO (Option ByteArray) := do
  let stdin ← IO.getStdin
  if !needsInput args || (← stdin.isTty) then return none
  return some (← readAll stdin ByteArray.empty)

end EntityQuery.CommandLine

def main (args : List String) : IO UInt32 := do
  let result := EntityQuery.CommandLine.run args (← EntityQuery.CommandLine.standardInput args)
  (← IO.getStdout).putStr result.out
  (← IO.getStderr).putStr result.err
  return result.status
