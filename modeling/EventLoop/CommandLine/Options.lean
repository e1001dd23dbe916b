import EventLoop.CommandLine.Words

set_option autoImplicit false

namespace EventLoop.CommandLine

structure Options where
  json : Bool := false
  interactive : Bool := false
  settingsPath : Option String := none
  maxSteps : Option Nat := none
  maxCallDepth : Option Nat := none
deriving DecidableEq, Repr, Inhabited

structure Invocation where
  options : Options
  source : String
deriving DecidableEq, Repr, Inhabited

def standardInput : String := "-"

inductive UsageError where
  | missingValue (option : String)
  | notACount (option : String)
  | unknownOption (option : String)
  | noSource
  | sourceFromInput
deriving DecidableEq, Repr, Inhabited

def UsageError.message (program : String) : UsageError → String
  | .missingValue option => option ++ " requires a value"
  | .notACount option => option ++ " must be a positive integer"
  | .unknownOption option => "Unknown option: " ++ option
  | .noSource =>
      "Usage: " ++ program ++ " [--json] [--config <file>] [--max-steps <n>] [--max-depth <n>] " ++
        "[--interactive] <file|->"
  | .sourceFromInput => "--interactive reads commands from stdin and needs a source file path"

def countFor (option value : String) : Except UsageError Nat :=
  (count? value.toList).elim (.error (.notACount option)) .ok

def Invocation.of (options : Options) : Option String → Except UsageError Invocation
  | none => .error .noSource
  | some source =>
      if options.interactive ∧ source = standardInput then .error .sourceFromInput
      else .ok ⟨options, source⟩

/-- Reads arguments from left to right. The last source and the last value of an option count. -/
def Invocation.read (options : Options) (source : Option String) :
    List String → Except UsageError Invocation
  | [] => Invocation.of options source
  | "--json" :: rest => read { options with json := true } source rest
  | "--interactive" :: rest => read { options with interactive := true } source rest
  | ["--config"] => .error (.missingValue "--config")
  | "--config" :: path :: rest => read { options with settingsPath := some path } source rest
  | ["--max-steps"] => .error (.missingValue "--max-steps")
  | "--max-steps" :: value :: rest => do
      let limit ← countFor "--max-steps" value
      read { options with maxSteps := some limit } source rest
  | ["--max-depth"] => .error (.missingValue "--max-depth")
  | "--max-depth" :: value :: rest => do
      let limit ← countFor "--max-depth" value
      read { options with maxCallDepth := some limit } source rest
  | argument :: rest =>
      if ['-', '-'].isPrefixOf argument.toList then .error (.unknownOption argument)
      else read options (some argument) rest

def Invocation.parse (arguments : List String) : Except UsageError Invocation :=
  Invocation.read {} none arguments

end EventLoop.CommandLine
