import EventLoop.CommandLine.Words
import EventLoop.Report.Line

set_option autoImplicit false

/-!
# The prompt

Typed lines move through a session. The answer to a line is a function of the session and the line.
-/

namespace EventLoop

def ConsoleLevel.isWarning : ConsoleLevel → Bool
  | .warn | .error => true
  | .log | .info | .debug => false

namespace CommandLine

structure Printout where
  output : String := ""
  errors : String := ""
deriving DecidableEq, Repr, Inhabited

namespace Printout

instance : Append Printout where
  append first second := ⟨first.output ++ second.output, first.errors ++ second.errors⟩

def ofLines (lines : List String) : Printout := { output := Report.unlines lines }

def ofEcho (run : Run) : Printout :=
  let texts (warning : Bool) : List String :=
    (run.echoed.toList.filter (·.1.isWarning == warning)).map (·.2)
  ⟨Report.unlines (texts false), Report.unlines (texts true)⟩

end Printout

inductive Command where
  | run
  | step
  | pause
  | reset
  | display
  | seek (index : Option Nat)
  | quit
  | unknown (word : String)
deriving DecidableEq, Repr, Inhabited

def Command.ofWords? : List (List Char) → Option Command
  | [] => none
  | word :: rest =>
      some <| match String.ofList word with
      | "run" | "r" => .run
      | "step" | "s" => .step
      | "pause" | "p" => .pause
      | "reset" => .reset
      | "show" => .display
      | "seek" => .seek (rest.head?.bind count?)
      | "quit" | "q" | "exit" => .quit
      | other => .unknown other

def greeting : Printout := .ofLines ["commands: run, step, pause, reset, show, seek <n>, quit"]

def cue : Printout := { output := "> " }

def answerRun (session : Session) : Printout × Session :=
  match session.run with
  | (.ok run, next) =>
      let summary := s!"{run.trace.size} steps, {run.diagnostics.size} diagnostics"
      (.ofEcho run ++ .ofLines (summary :: next.lines), next)
  | (.error error, next) => (.ofLines ["Error: " ++ error.message], next)

/-- What is printed for a command and the session after it; nothing once the user quits. A reset
keeps the source. -/
def Command.answer? (session : Session) : Command → Option (Printout × Session)
  | .run => some (answerRun session)
  | .step => some (shown session.step.2)
  | .pause => some (shown session.pause)
  | .reset => some (shown (session.reset.setCode session.code))
  | .display => some (shown session)
  | .seek none => some (.ofLines ["usage: seek <n>"], session)
  | .seek (some index) => some (shown (session.seek index))
  | .quit => none
  | .unknown word => some (.ofLines ["unknown command: " ++ word], session)
where
  shown (session : Session) : Printout × Session := (.ofLines session.lines, session)

def answerLine? (session : Session) (line : String) : Option (Printout × Session) :=
  match Command.ofWords? (words line.toList) with
  | none => some ({}, session)
  | some command => command.answer? session

def dialogue (session : Session) : List String → Printout
  | [] => cue
  | line :: rest =>
      match answerLine? session line with
      | none => cue
      | some (printout, next) => cue ++ printout ++ dialogue next rest

end CommandLine

end EventLoop
