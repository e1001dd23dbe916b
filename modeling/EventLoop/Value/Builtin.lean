set_option autoImplicit false

namespace EventLoop

abbrev PromiseId := Nat

inductive ConsoleLevel where
  | log
  | info
  | debug
  | warn
  | error
deriving DecidableEq, Repr, Inhabited

namespace ConsoleLevel

def name : ConsoleLevel → String
  | .log => "log"
  | .info => "info"
  | .debug => "debug"
  | .warn => "warn"
  | .error => "error"

def ofName? : String → Option ConsoleLevel
  | "log" => some .log
  | "info" => some .info
  | "debug" => some .debug
  | "warn" => some .warn
  | "error" => some .error
  | _ => none

end ConsoleLevel

inductive ReactionKind where
  | onThen
  | onCatch
  | onFinally
deriving DecidableEq, Repr, Inhabited

namespace ReactionKind

def name : ReactionKind → String
  | .onThen => "then"
  | .onCatch => "catch"
  | .onFinally => "finally"

def ofName? : String → Option ReactionKind
  | "then" => some .onThen
  | "catch" => some .onCatch
  | "finally" => some .onFinally
  | _ => none

end ReactionKind

inductive Builtin where
  | setTimeout
  | clearTimeout
  | queueMicrotask
  | console
  | consoleMethod (level : ConsoleLevel)
  | promise
  | promiseResolve
  | promiseMethod (kind : ReactionKind) (id : PromiseId)
deriving DecidableEq, Repr, Inhabited

namespace Builtin

def global? : String → Option Builtin
  | "setTimeout" => some .setTimeout
  | "clearTimeout" => some .clearTimeout
  | "queueMicrotask" => some .queueMicrotask
  | "console" => some .console
  | "Promise" => some .promise
  | _ => none

def member? (builtin : Builtin) (property : String) : Option Builtin :=
  match builtin with
  | .console => (ConsoleLevel.ofName? property).map .consoleMethod
  | .promise => if property == "resolve" then some .promiseResolve else none
  | _ => none

def isCallable : Builtin → Bool
  | .console | .promise => false
  | _ => true

def name : Builtin → String
  | .setTimeout => "setTimeout"
  | .clearTimeout => "clearTimeout"
  | .queueMicrotask => "queueMicrotask"
  | .console => "console"
  | .consoleMethod level => level.name
  | .promise => "Promise"
  | .promiseResolve => "resolve"
  | .promiseMethod kind _ => kind.name

end Builtin

end EventLoop
