import EventLoop.Evaluation.Call

set_option autoImplicit false

/-!
# The event loop

After the program itself, microtasks run until there are none, then one task, and so on. Each turn
records a step when it is over.
-/

namespace EventLoop

open Actions

variable {m : Type → Type} [Monad m] [Interpreter m]

def Job.run : Job → m Unit
  | .callback value => do
      let _ ← callValue value []
      return
  | .reaction waiting value => Reactions.run callValue waiting value
  | .follow promise other => Reactions.follow promise other

def runMicrotask (microtask : Microtask) : m Unit := do
  let firstStep ← traceSize
  microtask.job.run
  record (.microtaskRun microtask.name firstStep) microtask.job.ref?

def runTask (task : Task) : m Unit := do
  let firstStep ← traceSize
  let _ ← callValue task.callback task.arguments
  record (.taskRun task.name firstStep) task.callback.callbackRef?

/-- One turn of the event loop: the next microtask or, when there is none, the next task. It tells
whether there was anything to run. -/
def turn : m Bool := do
  match ← dequeueMicrotask? with
  | some microtask =>
      runMicrotask microtask
      return true
  | none =>
      match ← dequeueTask? with
      | some task =>
          runTask task
          return true
      | none => return false

def turns : Nat → m Unit
  | 0 => return
  | more + 1 => do
      if ← turn then turns more

/-- Runs the event loop to its end. Every turn records a step, so there are no more turns than
steps that the trace has room for, and one that finds nothing or no room. -/
def runQueues : m Unit := do
  turns ((← settings).maxSteps - (← traceSize) + 1)

def Program.prologue (program : Program) : m Unit := do
  record .start none
  let _ ← execBody (← Interpreter.calls) Scopes.global program.body
  return

def Program.simulate (program : Program) : m Unit := do
  program.prologue
  runQueues

end EventLoop
