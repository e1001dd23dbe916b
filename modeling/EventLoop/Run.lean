import EventLoop.Evaluation.Turn
import EventLoop.Parsing.Program

set_option autoImplicit false

/-!
# Runs

A source is read and run as a whole; the outcome is the trace of its steps together with what it
wrote and what went wrong.
-/

namespace EventLoop

structure Run where
  trace : Array Step
  diagnostics : Array Diagnostic
  console : Array ConsoleLine
  truncated : Bool
  clock : Float
  echoed : Array (ConsoleLevel × String)
deriving Repr, Inhabited

def Machine.toRun (machine : Machine) (truncated : Bool) : Run where
  trace := machine.trace
  diagnostics := machine.diagnostics
  console := machine.console
  truncated := truncated
  clock := machine.clock.now
  echoed := machine.echoed

def Outcome.toRun : Outcome Unit → Run
  | .done () machine => machine.toRun false
  | .halted machine =>
      let limit : Diagnostic := ⟨.stepLimitReached machine.trace.size, none, machine.lastStep⟩
      { machine.toRun true with diagnostics := machine.diagnostics.push limit }

def Program.run (program : Program) (settings : Settings) : Run :=
  (program.simulate (m := Simulation) settings .initial).toRun

inductive RunError where
  | settings (error : SettingsError)
  | parsing (error : SyntaxError)
deriving Repr, Inhabited

def RunError.message : RunError → String
  | .settings error => error.message
  | .parsing error => error.message

/-- Reads and runs a source. The settings are looked at first. -/
def simulate (source : String) (settings : Settings) : Except RunError Run := do
  settings.validate.mapError .settings
  let program ← (Program.parse source).mapError .parsing
  return program.run settings

end EventLoop
