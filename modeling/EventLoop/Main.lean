import EventLoop.CommandLine.Execute

set_option autoImplicit false

namespace EventLoop.CommandLine

def programName : String := "eventloop"

def readFile (path : String) : IO (Except FileError String) := do
  try
    return .ok (← IO.FS.readFile path)
  catch
    | .noFileOrDirectory .. => return .error .missing
    | .inappropriateType .. => return .error .directory
    | error => return .error (.other (toString error))

def readInput : IO String := do
  (← IO.getStdin).readToEnd

def Printout.put (printout : Printout) : IO Unit := do
  IO.print printout.output
  IO.eprint printout.errors
  (← IO.getStdout).flush

def Ending.put (ending : Ending) : IO UInt32 := do
  ending.printout.put
  return ending.code

partial def converse (session : Session) : IO Unit := do
  cue.put
  let line ← (← IO.getStdin).getLine
  unless line.isEmpty do
    match answerLine? session line with
    | none => return
    | some (printout, next) =>
        printout.put
        converse next

def start (invocation : Invocation) : IO UInt32 := do
  let settingsFile ← invocation.options.settingsPath.mapM readFile
  let source ←
    if invocation.source = standardInput then .ok <$> readInput else readFile invocation.source
  match invocation.job settingsFile source with
  | .error failure => (Ending.of programName (.error failure)).put
  | .ok job =>
      if invocation.options.interactive then
        greeting.put
        converse job.session
        return 0
      else (Ending.of programName (job.print invocation.options.json)).put

end EventLoop.CommandLine

open EventLoop.CommandLine in
def main (arguments : List String) : IO UInt32 :=
  match Invocation.parse arguments with
  | .error error => (Ending.of programName (.error (.usage error))).put
  | .ok invocation => start invocation
