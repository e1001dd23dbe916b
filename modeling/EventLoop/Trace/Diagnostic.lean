import EventLoop.Syntax.Tree
import EventLoop.Value.Builtin

set_option autoImplicit false

namespace EventLoop

inductive Problem where
  | unhandledNode (kind : NodeKind)
  | unresolvedCallee (name : String)
  | unsupportedOperator (operator : String)
  | invalidCallback (source : String)
  | callDepthExceeded (depth : Nat)
  | stepLimitReached (limit : Nat)
deriving DecidableEq, Repr, Inhabited

namespace Problem

def name : Problem → String
  | .unhandledNode _ => "UnhandledNodeKind"
  | .unresolvedCallee _ => "UnresolvedCallee"
  | .unsupportedOperator _ => "UnsupportedOperator"
  | .invalidCallback _ => "InvalidCallback"
  | .callDepthExceeded _ => "CallDepthExceeded"
  | .stepLimitReached _ => "StepLimitReached"

def message : Problem → String
  | .unhandledNode kind => "Unhandled node type: " ++ kind.name
  | .unresolvedCallee callee => callee ++ " is not a function"
  | .unsupportedOperator operator => "Unsupported operator '" ++ operator ++ "'"
  | .invalidCallback source => source ++ ": callback is not a function"
  | .callDepthExceeded depth => s!"Maximum call depth of {depth} exceeded"
  | .stepLimitReached limit => s!"Step limit of {limit} reached, trace truncated"

end Problem

structure Diagnostic where
  problem : Problem
  span : Option Span
  -- The last step before the problem.
  step : Nat
deriving DecidableEq, Repr, Inhabited

def Diagnostic.text (diagnostic : Diagnostic) : String :=
  let text := diagnostic.problem.name ++ ": " ++ diagnostic.problem.message
  match diagnostic.span with
  | some span => s!"{text} at {span.line}:{span.column}"
  | none => text

structure ConsoleLine where
  level : ConsoleLevel
  text : String
  step : Nat
deriving DecidableEq, Repr, Inhabited

end EventLoop
