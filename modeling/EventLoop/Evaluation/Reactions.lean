import EventLoop.Machine.Actions

set_option autoImplicit false

/-!
# Reactions of promises

A promise is only ever fulfilled. To settle it with another promise takes two microtasks: one that
subscribes to the other promise and one that passes its value on.
-/

namespace EventLoop

def Handler.ofArguments (arguments : List Value) : Handler :=
  match arguments.head? with
  | some value => if value.isCallable then .callback value else .passThrough
  | none => .passThrough

abbrev Calls (m : Type → Type) := Value → List Value → m Value

namespace Reactions

open Actions

variable {m : Type → Type} [Monad m] [Actions m]

/-- A promise stands for itself, any other value for a new promise that holds it. -/
def promiseOf : Value → m PromiseId
  | .promise id => return id
  | value => createPromise (.fulfilled value)

def enqueue (reaction : Reaction) (value : Value) : m Unit :=
  addMicrotask ⟨reaction.name, .reaction reaction value⟩ none

def enqueueAll (value : Value) : List Reaction → m Unit
  | [] => return
  | reaction :: rest => do
      enqueue reaction value
      enqueueAll value rest

def subscribe (source : PromiseId) (reaction : Reaction) : m Unit := do
  match ← keepReaction source reaction with
  | some value => enqueue reaction value
  | none => return

def resolve (arguments : List Value) : m Value :=
  return .promise (← promiseOf (arguments.head?.getD .undefined))

def register (kind : ReactionKind) (source : PromiseId) (arguments : List Value) :
    m Value := do
  let derived ← createPromise (.pending [])
  subscribe source ⟨kind, .ofArguments arguments, derived⟩
  return .promise derived

/-- Settles a promise with a value. To follow another promise takes a job of its own; a promise
that would follow itself stays pending. -/
def settle (id : PromiseId) (value : Value) : m Unit := do
  note (.settle id value)
  match value with
  | .promise other =>
      if other == id then return
      else addMicrotask ⟨"resolveThenable", .follow id other⟩ none
  | value => enqueueAll value (← fulfill id value)

def follow (promise other : PromiseId) : m Unit :=
  subscribe other ⟨.onThen, .passThrough, promise⟩

def restoreAfter (outcome saved : Value) : m Value := do
  let waited ← promiseOf outcome
  let restored ← createPromise (.pending [])
  subscribe waited ⟨.onFinally, .restore saved, restored⟩
  return .promise restored

/-- What a reaction settles its promise with. Nothing is ever rejected, so that the callback of a
catch never runs. -/
def result (calls : Calls m) (reaction : Reaction) (value : Value) : m Value :=
  match reaction.kind, reaction.handler with
  | .onThen, .callback callback => calls callback [value]
  | .onFinally, .callback callback => do restoreAfter (← calls callback []) value
  | _, .restore saved => return saved
  | _, _ => return value

def run (calls : Calls m) (reaction : Reaction) (value : Value) : m Unit := do
  settle reaction.derived (← result calls reaction value)

end Reactions

end EventLoop
