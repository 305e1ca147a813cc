import LoopLowering.CommandLine.Run

/-!
# The program

Reads the files that the arguments name, and prints what the command makes of
them.
-/

open LoopLowering

/-- What is known of a file on disk. -/
def readFileState
    (path : String) :
    IO FileState := do
  try
    return .text (← IO.FS.readFile path)
  catch cause =>
    match cause with
    | .noFileOrDirectory .. => return .missing
    | .inappropriateType .. => return .directory
    | _ => return .unreadable (toString cause)

/-- Run the command that the arguments name. -/
def main
    (arguments : List String) :
    IO UInt32 := do
  let contents ← (filesOfArguments arguments).mapM (fun path => do
    return (path, ← readFileState path))
  let outcome := runArguments (fun path => (List.lookup path contents).getD .missing) arguments
  IO.print outcome.output
  IO.eprint outcome.errors
  return outcome.code
