import EventLoop.Machine.Promises
import EventLoop.Trace.Step

set_option autoImplicit false

/-!
# Queues

Tasks are kept in the order in which they run, by delay and then by age. Microtasks run first in,
first out. The clock follows the delays of the tasks that run.
-/

namespace EventLoop

abbrev TimerId := Nat

structure Task extends TaskEntry where
  id : TimerId
  callback : Value
  arguments : List Value
deriving Repr, Inhabited

structure TaskQueue where
  tasks : List Task
  lastId : TimerId
deriving Repr, Inhabited

namespace TaskQueue

def empty : TaskQueue := ⟨[], 0⟩

def entries (queue : TaskQueue) : List TaskEntry := queue.tasks.map Task.toTaskEntry

def nextId (queue : TaskQueue) : TimerId × TaskQueue :=
  (queue.lastId + 1, { queue with lastId := queue.lastId + 1 })

/-- Puts a task behind all whose delay is not greater. -/
def insert (task : Task) : List Task → List Task
  | [] => [task]
  | queued :: rest =>
      if queued.delay ≤ task.delay then queued :: insert task rest else task :: queued :: rest

def enqueue (queue : TaskQueue) (task : Task) : TaskQueue :=
  { queue with tasks := insert task queue.tasks }

def dequeue? (queue : TaskQueue) : Option (Task × TaskQueue) :=
  match queue.tasks with
  | [] => none
  | task :: rest => some (task, { queue with tasks := rest })

def cancel? (queue : TaskQueue) (id : TimerId) : Option (Task × TaskQueue) :=
  (queue.tasks.find? (·.id == id)).map fun task =>
    (task, { queue with tasks := queue.tasks.eraseP (·.id == id) })

end TaskQueue

inductive Job where
  | callback (callback : Value)
  | reaction (reaction : Reaction) (value : Value)
  | follow (promise other : PromiseId)
deriving Repr, Inhabited

structure Microtask where
  name : String
  job : Job
deriving Repr, Inhabited

def Job.ref? : Job → Option NodeRef
  | .callback value => value.callbackRef?
  | .reaction waiting _ => waiting.callback?.bind Value.callbackRef?
  | .follow .. => none

structure MicrotaskQueue where
  microtasks : List Microtask
deriving Repr, Inhabited

namespace MicrotaskQueue

def empty : MicrotaskQueue := ⟨[]⟩

def names (queue : MicrotaskQueue) : List String := queue.microtasks.map Microtask.name

def enqueue (queue : MicrotaskQueue) (microtask : Microtask) : MicrotaskQueue :=
  ⟨queue.microtasks ++ [microtask]⟩

def dequeue? (queue : MicrotaskQueue) : Option (Microtask × MicrotaskQueue) :=
  match queue.microtasks with
  | [] => none
  | microtask :: rest => some (microtask, ⟨rest⟩)

end MicrotaskQueue

structure Clock where
  now : Float
deriving Repr, Inhabited

def Clock.initial : Clock := ⟨0⟩

def Clock.advance (clock : Clock) (time : Float) : Clock :=
  if clock.now < time then ⟨time⟩ else clock

end EventLoop
