import EventLoop.Number.Positional
import EventLoop.Syntax.Tree

set_option autoImplicit false

namespace EventLoop

inductive Event where
  | start
  | push (frame : String)
  | pop (frame : String)
  | taskEnqueued (name : String) (delay : Float)
  | taskCancelled (name : String)
  | microtaskEnqueued (name : String)
  -- A microtask is over; its first step is this one if it made none.
  | microtaskRun (name : String) (firstStep : Nat)
  | taskRun (name : String) (firstStep : Nat)
deriving Repr, Inhabited

def Event.label : Event → String
  | .start => "start"
  | .push frame => "push " ++ frame
  | .pop frame => "pop " ++ frame
  | .taskEnqueued name delay => "enqueue task " ++ name ++ " (" ++ Number.text delay ++ "ms)"
  | .taskCancelled name => "cancel task " ++ name
  | .microtaskEnqueued name => "enqueue microtask " ++ name
  | .microtaskRun name _ => "ran microtask " ++ name
  | .taskRun name _ => "ran task " ++ name

structure TaskEntry where
  name : String
  delay : Float
deriving Repr, Inhabited

structure Step where
  event : Event
  -- The names of the running functions, innermost first.
  stack : List String
  tasks : List TaskEntry
  -- Pending microtasks, the next one first.
  microtasks : List String
  node : Option NodeRef
  clock : Float
deriving Repr, Inhabited

end EventLoop
