import EventLoop.Settings.Basic
import EventLoop.Settings.Token

set_option autoImplicit false

/-!
# Settings texts

Settings are written as an object with named members, or as a list in a fixed order. Everything else
is malformed, repeated and unknown names included.
-/

namespace EventLoop

structure GivenSettings where
  maxSteps : Option Nat := none
  maxCallDepth : Option Nat := none
  echoConsole : Option Bool := none
deriving DecidableEq, Repr, Inhabited

namespace GivenSettings

def set? (given : GivenSettings) (name : String) (value : SettingsToken) : Option GivenSettings :=
  match name, value, given with
  | "max_steps", .count limit, { maxSteps := none, .. } => some { given with maxSteps := limit }
  | "max_call_depth", .count limit, { maxCallDepth := none, .. } =>
      some { given with maxCallDepth := limit }
  | "echo_console", .flag echo, { echoConsole := none, .. } =>
      some { given with echoConsole := echo }
  | _, _, _ => none

def named? (given : GivenSettings) : List SettingsToken → Option GivenSettings
  | [.text name, .colon, value, .closeBrace] => given.set? name value
  | .text name :: .colon :: value :: .comma :: rest => do named? (← given.set? name value) rest
  | _ => none

def ofTokens? : List SettingsToken → Option GivenSettings
  | [.openBrace, .closeBrace] => some {}
  | .openBrace :: rest => named? {} rest
  | [.openBracket, .closeBracket] => some {}
  | [.openBracket, .count steps, .closeBracket] => some ⟨steps, none, none⟩
  | [.openBracket, .count steps, .comma, .count depth, .closeBracket] =>
      some ⟨steps, depth, none⟩
  | [.openBracket, .count steps, .comma, .count depth, .comma, .flag echo, .closeBracket] =>
      some ⟨steps, depth, echo⟩
  | _ => none

def complete (given : GivenSettings) : Settings :=
  let standard : Settings := {}
  { maxSteps := given.maxSteps.getD standard.maxSteps
    maxCallDepth := given.maxCallDepth.getD standard.maxCallDepth
    echoConsole := given.echoConsole.getD standard.echoConsole }

end GivenSettings

inductive SettingsTextError where
  | malformed
  | invalid (error : SettingsError)
deriving DecidableEq, Repr, Inhabited

def SettingsTextError.message : SettingsTextError → String
  | .malformed => "ConfigError: malformed settings"
  | .invalid error => error.message

def Settings.ofText (text : String) : Except SettingsTextError Settings :=
  match (SettingsToken.all? text.toList).bind GivenSettings.ofTokens? with
  | none => .error .malformed
  | some given => do
      given.complete.validate.mapError .invalid
      return given.complete

end EventLoop
