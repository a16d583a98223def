import OverDelimited.CommandLine.Outcome

/-!
# The tool

Reads the files that a command line asks about, and prints the outcome.
-/

namespace OverDelimited.CommandLine

/-- What is found at a path. -/
def readEntry (path : String) : IO Entry := do
  try
    let bytes ← IO.FS.readBinFile path
    match String.fromUTF8? bytes with
    | some content => return .text content
    | none => return .closed "stream did not contain valid UTF-8"
  catch e =>
    match e with
    | .noFileOrDirectory .. => return .missing
    | .inappropriateType .. => return .directory
    | e => return .closed (toString e)

end OverDelimited.CommandLine

open OverDelimited.CommandLine

/-- Runs the tool. -/
def main (words : List String) : IO UInt32 := do
  let paths := match Request.ofWords words with
    | .run i => i.paths
    | _ => []
  let entries ← paths.mapM fun path => return (path, ← readEntry path)
  let outcome := run (fun path => (entries.lookup path).getD .missing) words
  (← IO.getStdout).putStr outcome.out
  (← IO.getStderr).putStr outcome.err
  return outcome.code.toUInt32
