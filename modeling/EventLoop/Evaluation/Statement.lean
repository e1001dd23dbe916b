import EventLoop.Evaluation.Expr

set_option autoImplicit false

namespace EventLoop

open Actions

variable {m : Type → Type} [Monad m] [Actions m]

inductive Completion where
  | normal
  | returned (value : Value)
deriving Repr, Inhabited

/-- Binds the functions that a statement list declares, before any of its statements runs. -/
def hoist (scope : ScopeId) : List Statement → m Unit
  | [] => return
  | .function node :: rest => do
      match node.id with
      | some id => declare scope id.name (← makeFunction none node scope)
      | none => pure ()
      hoist scope rest
  | _ :: rest => hoist scope rest

def execDeclarators (calls : FunctionCalls m) (scope : ScopeId) :
    List Declarator → m Unit
  | [] => return
  | declarator :: rest => do
      let value ← match declarator.init with
        | some init => init.named declarator.id.name scope (init.eval calls scope)
        | none => pure .undefined
      declare scope declarator.id.name value
      execDeclarators calls scope rest

mutual

/-- Executes a statement. A block has no scope of its own. -/
def Statement.exec (calls : FunctionCalls m) (scope : ScopeId) : Statement → m Completion
  | .declaration _ declarators _ => do
      execDeclarators calls scope declarators
      return .normal
  | .function _ => return .normal
  | .expression value _ => do
      let _ ← value.eval calls scope
      return .normal
  | .returns none _ => return .returned .undefined
  | .returns (some argument) _ => return .returned (← argument.eval calls scope)
  | .block body _ => do
      hoist scope body
      execAll calls scope body
  | .empty _ => return .normal
  | .unsupported kind span => do
      report (.unhandledNode kind) (some span)
      return .normal

def execAll (calls : FunctionCalls m) (scope : ScopeId) : List Statement → m Completion
  | [] => return .normal
  | statement :: rest => do
      match ← statement.exec calls scope with
      | .normal => execAll calls scope rest
      | .returned value => return .returned value

end

def execBody (calls : FunctionCalls m) (scope : ScopeId) (body : List Statement) :
    m Completion := do
  hoist scope body
  execAll calls scope body

end EventLoop
