import EventLoop.Evaluation.Builtins
import EventLoop.Value.Operations

set_option autoImplicit false

/-!
# Evaluation of expressions

Evaluation is by recursion on the tree. What a call does is a parameter, which `Callable.call`
closes by recursion on the room that is left on the stack.
-/

namespace EventLoop

abbrev FunctionCalls (m : Type → Type) := Callable → List Value → m Value

open Actions

variable {m : Type → Type} [Monad m] [Actions m]

def Expr.named (name : String) (scope : ScopeId) (expr : Expr) (evaluated : m Value) :
    m Value :=
  match expr with
  | .function node =>
      if node.id.isNone then makeFunction (some name) node scope else evaluated
  | _ => evaluated

def UnaryOp.runs : UnaryOp → Bool
  | .minus | .plus | .not | .typeof => true
  | .bitNot | .void | .delete => false

def UnaryOp.apply (op : UnaryOp) (value : Value) : Value :=
  match op with
  | .minus => .number (-value.toNumber)
  | .plus => .number value.toNumber
  | .not => .boolean (!value.toBoolean)
  | .typeof => .string value.typeName
  | .bitNot | .void | .delete => .undefined

def LogicalOp.decides (op : LogicalOp) (left : Value) : Bool :=
  match op with
  | .and => !left.toBoolean
  | .or => left.toBoolean
  | .coalesce => !left.isNullish

def UpdateOp.apply (op : UpdateOp) (number : Float) : Float :=
  match op with
  | .increment => number + 1
  | .decrement => number - 1

def skip (problem : Problem) (span : Span) : m Value := do
  report problem (some span)
  return .undefined

def callFrom (calls : FunctionCalls m) (callee : Value) (arguments : List Value) (site : CallSite) :
    m Value :=
  match callee with
  | .builtin builtin => builtin.call arguments (some site)
  | .function callable => calls callable arguments
  | _ => uncallable

mutual

def Expr.eval (calls : FunctionCalls m) (scope : ScopeId) : Expr → m Value
  | .literal value _ => return value.value
  | .identifier id => lookup scope id.name
  | .function node => makeFunction none node scope
  | .unary op argument span =>
      if op.runs then return op.apply (← argument.eval calls scope)
      else skip (.unsupportedOperator op.text) span
  | .binary op left right span => do
      let left ← left.eval calls scope
      let right ← right.eval calls scope
      match op.result? left right with
      | some value => return value
      | none => skip (.unsupportedOperator op.text) span
  | .logical op left right _ => do
      let left ← left.eval calls scope
      if op.decides left then return left else right.eval calls scope
  | .conditional test consequent alternate _ => do
      if (← test.eval calls scope).toBoolean then consequent.eval calls scope
      else alternate.eval calls scope
  | .assignment .assign target value _ => do
      let value ← value.named target.name scope (value.eval calls scope)
      assign scope target.name value
      return value
  | .assignment op target value span =>
      match op.binary? with
      | none => skip (.unsupportedOperator op.text) span
      | some binary => do
          let current ← lookup scope target.name
          let right ← value.eval calls scope
          let value := (binary.result? current right).getD .undefined
          assign scope target.name value
          return value
  | .update op order target _ => do
      let old := (← lookup scope target.name).toNumber
      let new := op.apply old
      assign scope target.name (.number new)
      return .number (if order = .updateFirst then new else old)
  | .sequence items _ => evalLast calls scope .undefined items
  | .member object property _ => return (← object.eval calls scope).property property.name
  | .call callee arguments span => do
      let found ← callee.eval calls scope
      if found.isCallable then
        let values ← evalAll calls scope arguments
        callFrom calls found values ⟨arguments, span⟩
      else skip (.unresolvedCallee callee.calleeName) span
  | .unsupported kind span => skip (.unhandledNode kind) span

def evalAll (calls : FunctionCalls m) (scope : ScopeId) : List Expr → m (List Value)
  | [] => return []
  | expr :: rest => do
      let value ← expr.eval calls scope
      return value :: (← evalAll calls scope rest)

def evalLast (calls : FunctionCalls m) (scope : ScopeId) (last : Value) :
    List Expr → m Value
  | [] => return last
  | expr :: rest => do evalLast calls scope (← expr.eval calls scope) rest

end

end EventLoop
