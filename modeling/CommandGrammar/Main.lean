import CommandGrammar.CommandLine

/-!
# The program

Reads the whole standard input, runs the command line on it, and writes what comes of it.
-/

/-- Reads everything that is left of a stream, a block at a time. -/
partial def readRest (stream : IO.FS.Stream) (read : ByteArray) : IO ByteArray := do
  let block ← stream.read 65536
  if block.isEmpty then return read else readRest stream (read ++ block)

def main (arguments : List String) : IO UInt32 := do
  let input ← readRest (← IO.getStdin) .empty
  let outcome := CommandGrammar.CommandLine.run arguments input.toList
  (← IO.getStdout).putStr outcome.output
  (← IO.getStderr).putStr outcome.errors
  return outcome.code
