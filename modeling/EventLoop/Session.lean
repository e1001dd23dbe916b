import EventLoop.Run

set_option autoImplicit false

/-!
# Playback sessions

A session holds a source and, after it was run, a place in the recorded trace. Moving that place
never runs anything again.
-/

namespace EventLoop

inductive SessionStatus where
  | idle
  | running
  | paused
  | completed
deriving DecidableEq, Repr, Inhabited

def SessionStatus.name : SessionStatus → String
  | .idle => "Idle"
  | .running => "Running"
  | .paused => "Paused"
  | .completed => "Completed"

structure Session where
  settings : Settings
  code : String
  run? : Option Run
  stepIndex : Nat
  status : SessionStatus
deriving Repr, Inhabited

namespace Session

def new (settings : Settings) : Session := ⟨settings, "", none, 0, .idle⟩

def isNew (session : Session) : Bool :=
  session.code.isEmpty && session.run?.isNone && session.stepIndex == 0 && session.status = .idle

def setCode (session : Session) (code : String) : Session := { session with code := code }

def run (session : Session) : Except RunError Run × Session :=
  let session := { session with stepIndex := 0 }
  match simulate session.code session.settings with
  | .ok run => (.ok run, { session with run? := some run, status := .running })
  | .error error => (.error error, { session with run? := none, status := .idle })

/-- Shows the next step. At the last one the session completes. The flag tells whether the shown
step is another one. -/
def step (session : Session) : Bool × Session :=
  match session.run? with
  | none => (false, session)
  | some run =>
      if session.stepIndex + 1 < run.trace.size then
        (true, { session with stepIndex := session.stepIndex + 1 })
      else (false, { session with status := .completed })

def pause (session : Session) : Session :=
  if session.status = .running then { session with status := .paused } else session

def seek (session : Session) (index : Nat) : Session :=
  match session.run? with
  | none => session
  | some run => { session with stepIndex := min index (run.trace.size - 1) }

def reset (session : Session) : Session := new session.settings

def current? (session : Session) : Option Step :=
  session.run?.bind fun run => run.trace[session.stepIndex]?

def totalSteps (session : Session) : Nat := session.run?.elim 0 (·.trace.size)

def diagnostics (session : Session) : Array Diagnostic := session.run?.elim #[] Run.diagnostics

def console (session : Session) : Array ConsoleLine := session.run?.elim #[] Run.console

end Session

end EventLoop
