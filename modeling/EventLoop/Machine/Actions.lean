import EventLoop.Machine.Basic
import EventLoop.Machine.Inspection

set_option autoImplicit false

namespace EventLoop

namespace Simulation

/-- Adds a step to the trace. It is the only action that the step limit refuses. -/
def record (event : Event) (node : Option NodeRef) : Simulation Unit := fun settings machine =>
  if settings.maxSteps ≤ machine.trace.size then .halted machine
  else .done () { machine with trace := machine.trace.push (machine.snapshot event node) }

def report (problem : Problem) (span : Option Span) : Simulation Unit :=
  modify fun machine =>
    { machine with
      diagnostics := machine.diagnostics.push ⟨problem, span, machine.lastStep⟩ }

def writeLine (level : ConsoleLevel) (text : String) : Simulation Unit := fun settings machine =>
  .done () { machine with
    console := machine.console.push ⟨level, text, machine.lastStep⟩
    echoed := if settings.echoConsole then machine.echoed.push (level, text) else machine.echoed }

def makeFunction (binding : Option String) (node : FunctionNode) (scope : ScopeId) :
    Simulation Value :=
  update fun machine =>
    (.function ⟨machine.callables, node.nameFor binding, node, scope⟩,
      { machine with callables := machine.callables + 1 })

def declare (scope : ScopeId) (name : String) (value : Value) : Simulation Unit :=
  modify fun machine => { machine with scopes := machine.scopes.declare scope name value }

def assign (scope : ScopeId) (name : String) (value : Value) : Simulation Unit :=
  modify fun machine => { machine with scopes := machine.scopes.assign scope name value }

def createScope (outer : ScopeId) : Simulation ScopeId :=
  update fun machine =>
    let (scope, scopes) := machine.scopes.create outer
    (scope, { machine with scopes := scopes })

def globalValue (name : String) : Value :=
  match Builtin.global? name with
  | some builtin => .builtin builtin
  | none =>
      match name with
      | "NaN" => .number Number.notANumber
      | "Infinity" => .number Number.infinity
      | _ => .undefined

def lookup (scope : ScopeId) (name : String) : Simulation Value :=
  read fun machine => (machine.scopes.lookup? scope name).getD (globalValue name)

def inspect (values : List Value) : Simulation (List String) :=
  read fun machine => values.map (·.inspect machine.promises)

def traceSize : Simulation Nat := read (·.trace.size)

def pushFrame (name : String) : Simulation Unit :=
  modify fun machine => { machine with stack := name :: machine.stack }

def popFrame : Simulation Unit :=
  modify fun machine => { machine with stack := machine.stack.tail }

def createPromise (state : PromiseState) : Simulation PromiseId :=
  update fun machine =>
    let (id, promises) := machine.promises.create state
    (id, { machine with promises := promises })

def fulfill (id : PromiseId) (value : Value) : Simulation (List Reaction) :=
  update fun machine =>
    let (reactions, promises) := machine.promises.fulfill id value
    (reactions, { machine with promises := promises })

def keepReaction (id : PromiseId) (reaction : Reaction) : Simulation (Option Value) :=
  update fun machine =>
    let (settled, promises) := machine.promises.subscribe id reaction
    (settled, { machine with promises := promises })

def enqueueMicrotask (microtask : Microtask) : Simulation Unit :=
  modify fun machine => { machine with microtasks := machine.microtasks.enqueue microtask }

def dequeueMicrotask? : Simulation (Option Microtask) :=
  update fun machine =>
    match machine.microtasks.dequeue? with
    | some (microtask, microtasks) => (some microtask, { machine with microtasks := microtasks })
    | none => (none, machine)

def nextTimer : Simulation TimerId :=
  update fun machine =>
    let (id, tasks) := machine.tasks.nextId
    (id, { machine with tasks := tasks })

def enqueueTask (task : Task) : Simulation Unit :=
  modify fun machine => { machine with tasks := machine.tasks.enqueue task }

def dequeueTask? : Simulation (Option Task) :=
  update fun machine =>
    match machine.tasks.dequeue? with
    | some (task, tasks) =>
        (some task, { machine with tasks := tasks, clock := machine.clock.advance task.delay })
    | none => (none, machine)

def cancelTask? (id : TimerId) : Simulation (Option Task) :=
  update fun machine =>
    match machine.tasks.cancel? id with
    | some (task, tasks) => (some task, { machine with tasks := tasks })
    | none => (none, machine)

end Simulation

/-- What a log of a run tells. -/
inductive Entry where
  | record (event : Event)
  -- A builtin is called and returns the result.
  | call (builtin : Builtin) (arguments : List Value) (result : Value)
  -- The event loop calls a callback, which returns the result.
  | invoke (callee : Value) (arguments : List Value) (result : Value)
  | hold (id : PromiseId) (value : Value)
  | settle (id : PromiseId) (value : Value)
  | subscribe (source : PromiseId) (reaction : Reaction)
  | enqueue (microtask : Microtask)
  | dequeue (microtask : Microtask)
  | addTask (task : Task)
  | takeTask (task : Task)
  | removeTask (task : Task)
  | line (stack : List String)
  | problem (stack : List String)

/-- The actions that evaluation and the event loop are made of. -/
class Actions (m : Type → Type) where
  settings : m Settings
  traceSize : m Nat
  record (event : Event) (node : Option NodeRef) : m Unit
  report (problem : Problem) (span : Option Span) : m Unit
  inspect (values : List Value) : m (List String)
  writeLine (level : ConsoleLevel) (text : String) : m Unit
  makeFunction (binding : Option String) (node : FunctionNode) (scope : ScopeId) : m Value
  declare (scope : ScopeId) (name : String) (value : Value) : m Unit
  assign (scope : ScopeId) (name : String) (value : Value) : m Unit
  createScope (outer : ScopeId) : m ScopeId
  lookup (scope : ScopeId) (name : String) : m Value
  pushFrame (name : String) : m Unit
  popFrame : m Unit
  createPromise (state : PromiseState) : m PromiseId
  fulfill (id : PromiseId) (value : Value) : m (List Reaction)
  keepReaction (id : PromiseId) (reaction : Reaction) : m (Option Value)
  enqueueMicrotask (microtask : Microtask) : m Unit
  dequeueMicrotask? : m (Option Microtask)
  nextTimer : m TimerId
  enqueueTask (task : Task) : m Unit
  dequeueTask? : m (Option Task)
  cancelTask? (id : TimerId) : m (Option Task)
  uncallable : m Value
  note (entry : Entry) : m Unit
  observe (entry : Value → Entry) (code : m Value) : m Value

instance : Actions Simulation where
  settings := Simulation.settings
  traceSize := Simulation.traceSize
  record := Simulation.record
  report := Simulation.report
  inspect := Simulation.inspect
  writeLine := Simulation.writeLine
  makeFunction := Simulation.makeFunction
  declare := Simulation.declare
  assign := Simulation.assign
  createScope := Simulation.createScope
  lookup := Simulation.lookup
  pushFrame := Simulation.pushFrame
  popFrame := Simulation.popFrame
  createPromise := Simulation.createPromise
  fulfill := Simulation.fulfill
  keepReaction := Simulation.keepReaction
  enqueueMicrotask := Simulation.enqueueMicrotask
  dequeueMicrotask? := Simulation.dequeueMicrotask?
  nextTimer := Simulation.nextTimer
  enqueueTask := Simulation.enqueueTask
  dequeueTask? := Simulation.dequeueTask?
  cancelTask? := Simulation.cancelTask?
  uncallable := pure .undefined
  note _ := pure ()
  observe _ code := code

section Queues

open Actions

variable {m : Type → Type} [Monad m] [Actions m]

def addMicrotask (microtask : Microtask) (node : Option NodeRef) : m Unit := do
  enqueueMicrotask microtask
  record (.microtaskEnqueued microtask.name) node

def addTask (entry : TaskEntry) (callback : Value) (arguments : List Value)
    (node : Option NodeRef) : m TimerId := do
  let id ← nextTimer
  enqueueTask ⟨entry, id, callback, arguments⟩
  record (.taskEnqueued entry.name entry.delay) node
  return id

def removeTask (id : TimerId) (node : Option NodeRef) : m Unit := do
  match ← cancelTask? id with
  | none => return
  | some task => record (.taskCancelled task.name) node

end Queues

end EventLoop
