import PropertyGraph.Social
import PropertyGraph.Summary

/-!
# The command line

`inspect [file]` summarizes a file of documents, `bench-social [file|-] [count]` makes a social graph
and checks it.
-/

namespace PropertyGraph.Main

/-- The content of the files that the arguments name, for those that can be read. -/
def readFiles (paths : List String) : IO Files := do
  let mut found : List (String × String) := []
  for path in paths do
    try
      found := (path, ← IO.FS.readFile path) :: found
    catch _ => pure ()
  let table := found
  return fun path => table.lookup path

/-- Prints what a command printed, and its failure. -/
def finish (o : Outcome) : IO UInt32 := do
  IO.print o.output
  IO.eprint o.errorText
  return o.exitCode.toUInt32

end PropertyGraph.Main

open PropertyGraph in
/-- Runs the command that the first argument names. -/
def main (args : List String) : IO UInt32 := do
  match args with
  | "inspect" :: rest =>
    let files ← Main.readFiles (rest.headD Summary.defaultFile :: [])
    Main.finish (Summary.command files rest).run
  | "bench-social" :: rest =>
    let files ← Main.readFiles (rest.take 1)
    Main.finish (Social.command files rest).run
  | _ =>
    IO.eprintln "usage: inspect [file] | bench-social [file|-] [count]"
    return 2
