import StyleTree.CommandLine

/-!
# The program

Reads the command line and says how the tools are to be served.
-/

open StyleTree

def main (args : List String) : IO UInt32 := do
  let command := Command.ofArguments args
  IO.print command.output
  IO.eprint command.errors
  if let .serve settings := command then
    IO.eprintln settings.announcement
  return (command.exitCode?.getD 0).toUInt32
