import EventLoop.Run

set_option autoImplicit false

/-!
# Strict evaluation

The interpreter in a monad without a safety net: calls and turns take fuel, and nothing results from
a number that names no scope or promise, or from a state that the watch rejects.
-/

namespace EventLoop

/-- The nearest scope that binds a name, if the chain of scopes has an end within the given number
of scopes. -/
def Scopes.search (scopes : Scopes) (name : String) : Nat → ScopeId → Option (Option ScopeId)
  | 0, _ => none
  | steps + 1, scope => do
      let found ← scopes.all[scope]?
      if (found.bindings.get? name).isSome then return some scope
      match found.outer with
      | none => return none
      | some outer => scopes.search name steps outer

/-- How the console shows a value, if the chain of promises that it holds has an end within the
given number of values. -/
def Promises.display (promises : Promises) : Nat → Bool → Value → Option String
  | 0, _, _ => none
  | steps + 1, nested, value =>
      match value with
      | .string text => if nested then some ("'" ++ text ++ "'") else some text
      | .promise id =>
          match promises.get? id with
          | none => none
          | some (.pending _) => some "Promise \x7b <pending> \x7d"
          | some (.fulfilled value) => do
              let shown ← promises.display steps true value
              return "Promise \x7b " ++ shown ++ " \x7d"
      | value => some (value.inspectWith fun _ => "")

-- What strict evaluation runs under. Nested calls and turns both take fuel.
structure Guard where
  watch : Machine → Bool
  fuel : Nat

/-- A computation that need not have an outcome. -/
def Strict (α : Type) : Type := Guard → Settings → Machine → Option (Outcome α)

namespace Strict

variable {α β : Type}

protected def pure (value : α) : Strict α := fun _ _ machine => some (.done value machine)

protected def bind (first : Strict α) (next : α → Strict β) : Strict β :=
  fun guard settings machine =>
    match first guard settings machine with
    | some (.done value middle) => next value guard settings middle
    | some (.halted after) => some (.halted after)
    | none => none

instance : Monad Strict where
  pure := Strict.pure
  bind := Strict.bind

def stuck : Strict α := fun _ _ _ => none

def ofOption : Option α → Strict α
  | some value => return value
  | none => stuck

def require (condition : Machine → Bool) : Strict Unit := fun _ _ machine =>
  if condition machine then some (.done () machine) else none

def act (sim : Simulation α) : Strict α := fun guard settings machine =>
  if guard.watch (sim settings machine).machine then some (sim settings machine) else none

def inspect (values : List Value) : Strict (List String) := do
  let promises ← act (Simulation.read (·.promises))
  ofOption (values.mapM (promises.display (promises.size + 1) false))

def declare (scope : ScopeId) (name : String) (value : Value) : Strict Unit := do
  require fun machine => decide (scope < machine.scopes.size)
  act (Simulation.declare scope name value)

def assign (scope : ScopeId) (name : String) (value : Value) : Strict Unit := do
  let scopes ← act (Simulation.read (·.scopes))
  let found ← ofOption (scopes.search name scopes.size scope)
  declare (found.getD Scopes.global) name value

def lookup (scope : ScopeId) (name : String) : Strict Value := do
  let scopes ← act (Simulation.read (·.scopes))
  let found ← ofOption (scopes.search name scopes.size scope)
  return (found.bind (scopes.get? · name)).getD (Simulation.globalValue name)

def onPromise (id : PromiseId) (sim : Simulation α) : Strict α := do
  require fun machine => decide (id < machine.promises.size)
  act sim

instance : Actions Strict where
  settings := act Simulation.settings
  traceSize := act Simulation.traceSize
  record event node := act (Simulation.record event node)
  report problem span := act (Simulation.report problem span)
  inspect := inspect
  writeLine level text := act (Simulation.writeLine level text)
  makeFunction binding node scope := act (Simulation.makeFunction binding node scope)
  declare := declare
  assign := assign
  createScope outer := act (Simulation.createScope outer)
  lookup := lookup
  pushFrame name := act (Simulation.pushFrame name)
  popFrame := act Simulation.popFrame
  createPromise state := act (Simulation.createPromise state)
  fulfill id value := onPromise id (Simulation.fulfill id value)
  keepReaction id reaction := onPromise id (Simulation.keepReaction id reaction)
  enqueueMicrotask microtask := act (Simulation.enqueueMicrotask microtask)
  dequeueMicrotask? := act Simulation.dequeueMicrotask?
  nextTimer := act Simulation.nextTimer
  enqueueTask task := act (Simulation.enqueueTask task)
  dequeueTask? := act Simulation.dequeueTask?
  cancelTask? id := act (Simulation.cancelTask? id)
  uncallable := stuck
  note _ := pure ()
  observe _ code := code

def call : Nat → Callable → List Value → Strict Value
  | 0, _, _ => stuck
  | fuel + 1, callable, arguments => do
      let limit := (← Actions.settings).maxCallDepth
      let stack ← act (Simulation.read (·.stack))
      if limit ≤ stack.length then skip (.callDepthExceeded limit) callable.node.span
      else
        withFrame callable.name (some callable.node.ref) (callable.enter (call fuel) arguments)

instance : Interpreter Strict where
  calls guard _ machine := some (.done (call guard.fuel) machine)

def loop : Nat → Strict Unit
  | 0 => stuck
  | more + 1 => do
      if ← turn then loop more

end Strict

/-- Runs a program strictly, under a watch from its first machine on. -/
def Program.interpret (program : Program) : Strict Unit := fun guard => (do
  Strict.require guard.watch
  program.prologue
  Strict.loop guard.fuel : Strict Unit) guard

/-- No more calls are nested than the stack has room for, and no more turns are taken than the trace
has room for steps. -/
def Settings.fuel (settings : Settings) : Nat := settings.maxSteps + settings.maxCallDepth + 1

/-- The run of a program without bounds and fallbacks, if there is one. -/
def Program.strictRun (watch : Machine → Bool) (fuel : Nat) (program : Program)
    (settings : Settings) : Option Run :=
  (program.interpret ⟨watch, fuel⟩ settings .initial).map Outcome.toRun

end EventLoop
