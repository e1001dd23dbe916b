import EventLoop.Evaluation.Statement

set_option autoImplicit false

namespace EventLoop

open Actions

section Calls

variable {m : Type → Type} [Monad m] [Actions m]

def bindParams (scope : ScopeId) : List Identifier → List Value → m Unit
  | [], _ => return
  | param :: params, [] => do
      declare scope param.name .undefined
      bindParams scope params []
  | param :: params, argument :: arguments => do
      declare scope param.name argument
      bindParams scope params arguments

def FunctionBody.run (calls : FunctionCalls m) (scope : ScopeId) : FunctionBody → m Value
  | .block body _ => do
      match ← execBody calls scope body with
      | .returned value => return value
      | .normal => return .undefined
  | .expression value => value.eval calls scope

def Callable.enter (calls : FunctionCalls m) (callable : Callable) (arguments : List Value) :
    m Value := do
  let scope ← createScope callable.scope
  bindParams scope callable.node.params arguments
  callable.node.body.run calls scope

/-- Puts a frame on the stack while something runs. The frame is recorded when it is put there and
when it is gone. -/
def withFrame {α : Type} (name : String) (node : Option NodeRef) (body : m α) : m α := do
  pushFrame name
  record (.push name) node
  let result ← body
  popFrame
  record (.pop name) node
  return result

/-- Calls a function when the stack has room for the given number of further frames. -/
def Callable.call : Nat → Callable → List Value → m Value
  | 0, callable, _ => do
      skip (.callDepthExceeded (← settings).maxCallDepth) callable.node.span
  | room + 1, callable, arguments =>
      withFrame callable.name (some callable.node.ref)
        (callable.enter (Callable.call room) arguments)

end Calls

class Interpreter (m : Type → Type) extends Actions m where
  calls : m (FunctionCalls m)

instance : Interpreter Simulation where
  calls := return Callable.call (← settings).maxCallDepth

variable {m : Type → Type} [Monad m] [Interpreter m]

def invoke (callee : Value) (arguments : List Value) : m Value :=
  match callee with
  | .function callable => do (← Interpreter.calls) callable arguments
  | .builtin builtin => builtin.call arguments none
  | _ => uncallable

def callValue (callee : Value) (arguments : List Value) : m Value :=
  observe (.invoke callee arguments) (invoke callee arguments)

end EventLoop
