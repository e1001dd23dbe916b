set_option autoImplicit false

namespace EventLoop

structure Settings where
  maxSteps : Nat := 10000
  maxCallDepth : Nat := 256
  echoConsole : Bool := false
deriving DecidableEq, Repr, Inhabited

inductive SettingsError where
  | maxSteps
  | maxCallDepth
deriving DecidableEq, Repr, Inhabited

def SettingsError.message : SettingsError → String
  | .maxSteps => "ConfigError: max_steps must be at least 1"
  | .maxCallDepth => "ConfigError: max_call_depth must be at least 1"

/-- Both limits have to be positive; of two faults the step limit is reported. -/
def Settings.validate (settings : Settings) : Except SettingsError Unit :=
  if settings.maxSteps = 0 then .error .maxSteps
  else if settings.maxCallDepth = 0 then .error .maxCallDepth
  else .ok ()

end EventLoop
