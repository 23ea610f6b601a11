import PowerLift.Command

/-!
# The command line
-/

open PowerLift

/-- The bytes of a file, if it can be read. -/
def readFile? (path : String) : IO (Option ByteArray) := do
  try return some (← IO.FS.readBinFile path)
  catch _ => return none

/-- Reads the files that a command needs, runs it, and prints its transcript. -/
def runInvocation (asked : Invocation) : IO UInt32 := do
  let files ← asked.command.files.mapM fun path => return (path, ← readFile? path)
  let read := fun path => (files.lookup path).getD none
  let (result, transcript) := Session.exec (asked.command.run read)
  for line in transcript.log do
    if asked.verbose || line.severity == .warn then
      IO.eprintln s!"{line.severity.name}: {line.text}"
  for line in transcript.printed do
    IO.println line
  match result with
  | .ok () => return 0
  | .error f => do
      IO.eprintln s!"Error: {f.message}"
      return 1

def main (args : List String) : IO UInt32 := do
  match Invocation.parse args with
  | .error e => do
      if e.isAnswer then
        IO.println e.message
        return 0
      IO.eprintln e.message
      return 2
  | .ok asked => runInvocation asked
